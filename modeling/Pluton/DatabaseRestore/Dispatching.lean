-- SUMMARY: Every stretch of the dispatcher and of the running operation keeps the tables in order.
import Pluton.DatabaseRestore.Invariant

/-!
# Stretches keep the tables in order

A stretch of the dispatcher starts with the row it goes on with, and ends with it, with a
claimed one, or without one. A stretch of the running operation keeps its row throughout.
-/
namespace Pluton.DatabaseRestore

open EStateM

variable {p : Prop} {base db : Db} {id : String} {others : List String} {a : Answers}
  {row : Restore} {set : Restore → Restore} {rows : List Restore}

/-! ## The body of the loop -/

/-- The row that is relied on after a stretch of the dispatcher. -/
def Flow.relied : Flow → List String
  | .wait place => place.row?.toList.map (·.id)
  | .skip => []
  | .claimed row => [row.id]

def Flow.started : Flow → List String
  | .claimed row => [row.id]
  | _ => []

/-- A stretch ends with its row, or without one. -/
def Ends (p : Prop) (base : Db) (id : String) (others : List String) (flow : Flow) (db : Db) :
    Prop :=
  flow.relied ⊆ [id] ∧ Sound p base (flow.relied ++ others) flow.started db

/-- A stretch that starts with its row, which is none of the others. -/
def Keeps (p : Prop) (base : Db) (id : String) (others : List String) (x : Sync Flow) : Prop :=
  ∀ db, Sound p base (id :: others) [] db →
    wp x (Ends p base id others) (fun _ => Sound p base others []) db

theorem Sound.tail {held : List String} (h : Sound p base (id :: others) held db) :
    Sound p base others held db :=
  h.mono (List.subset_cons_self id others) (List.Subset.refl held)

theorem keeps_skip : Keeps p base id others (pure .skip) := fun _ h => ⟨List.nil_subset _, h.tail⟩

theorem keeps_wait {place : Place} (hplace : place.row? = some row) (hid : row.id = id) :
    Keeps p base id others (pure (.wait place)) := by
  intro db h
  have hrelied : (Flow.wait place).relied = [id] := by simp [Flow.relied, hplace, hid]
  show Ends p base id others (.wait place) db
  rw [Ends, hrelied]
  exact ⟨List.Subset.refl _, h⟩

theorem Keeps.ite {c : Prop} [Decidable c] {x y : Sync Flow} (hx : Keeps p base id others x)
    (hy : Keeps p base id others y) : Keeps p base id others (if c then x else y) := by
  split
  · exact hx
  · exact hy

theorem keeps_get {f : Db → Sync Flow} (hf : ∀ db, Keeps p base id others (f db)) :
    Keeps p base id others (get >>= f) := by
  intro db h
  rw [wp_bind, wp_get]
  exact hf db db h

theorem keeps_refuseIf {c : Bool} {e : String} {f : Unit → Sync Flow}
    (hf : Keeps p base id others (f ())) :
    Keeps p base id others (refuseIf c e >>= f) := by
  intro db h
  rw [wp_bind, wp_refuseIf]
  exact ⟨fun _ => h.tail, fun _ => hf db h⟩

/-- A stretch goes on with the row as it has been updated. -/
theorem keeps_updated {f : Restore → Sync Flow} (hid : row.id = id)
    (hkey : ∀ row, (set row).id = row.id)
    (hset : ∀ stored : Restore, (set stored).status.isRemovable = true)
    (hf : ∀ row : Restore, row.id = id → Keeps p base id others (f row)) :
    Keeps p base id others (updated row set >>= f) := by
  subst hid
  intro db h
  exact (wp_updated_removable h hkey hset).bind fun row' db' hrow' => hf row' hrow'.1 db' hrow'.2

/-- A stretch goes on with the row after an update of other members. -/
theorem keeps_updated_same {f : Restore → Sync Flow} (hid : row.id = id)
    (hkey : ∀ row, (set row).id = row.id)
    (hset : ∀ stored : Restore, (set stored).status = stored.status ∧
      (set stored).cancelRequested = stored.cancelRequested)
    (hf : ∀ row : Restore, row.id = id → Keeps p base id others (f row)) :
    Keeps p base id others (updated row set >>= f) := by
  subst hid
  intro db h
  refine (wp_updated h hkey fun stored _ _ => ?_).bind fun row' db' hrow' =>
    hf row' hrow'.1 db' hrow'.2
  exact ⟨.inr (.inl ⟨(hset stored).1, .inl (hset stored).2⟩)⟩

theorem keeps_approval {f : Except String Unit → Sync Flow}
    (hf : ∀ result, Keeps p base id others (f result)) :
    Keeps p base id others (observe (approval a row) >>= f) := by
  intro db h
  rw [wp_bind, wp_observe, approval, wp_bind, wp_get, wp_refuseIf]
  exact ⟨fun _ => hf _ db h, fun _ => hf _ db h⟩

theorem keeps_finishDeleted (hfresh : id ∉ others) {f : Unit → Sync Flow}
    (hf : ∀ u, f u = pure .skip) :
    Keeps p base id others (finishDeleted id >>= f) := by
  intro db h
  refine wp.bind ((wp_finishDeleted h hfresh).mono (fun _ _ hQ => hQ) fun _ _ hE =>
    hE.tail) fun u db' h' => ?_
  rw [hf]
  exact ⟨List.nil_subset _, h'⟩

theorem keeps_claimNext (hid : row.id = id) : Keeps p base id others (claimNext a row) := by
  subst hid
  unfold claimNext
  refine Keeps.ite keeps_skip fun db h => ?_
  refine (wp_claim h a.now a.elsewhere row.cancelRequested).bind fun claimed db' hclaimed => ?_
  cases claimed with
  | none => exact ⟨List.nil_subset _, hclaimed.tail⟩
  | some claimed =>
      obtain ⟨hkey, hsound⟩ := hclaimed
      show Ends p base row.id others (.claimed claimed) db'
      rw [Ends, Flow.relied, Flow.started, hkey]
      exact ⟨List.Subset.refl _, hsound⟩

theorem keeps_provision (hid : row.id = id) : Keeps p base id others (provision a row) :=
  Keeps.ite (keeps_wait rfl hid) (keeps_claimNext hid)

theorem keeps_afterVerifiedAbsent (hid : row.id = id) (hfresh : id ∉ others) :
    Keeps p base id others (afterVerifiedAbsent a row) := by
  subst hid
  exact keeps_refuseIf (Keeps.ite (keeps_finishDeleted hfresh fun _ => rfl) (keeps_provision rfl))

theorem keeps_absence (hid : row.id = id) : Keeps p base id others (absence a row) :=
  keeps_get fun _ => Keeps.ite (keeps_wait rfl hid) (keeps_provision hid)

theorem keeps_afterStateBinding (hid : row.id = id) (state : String) :
    Keeps p base id others (afterStateBinding a row state) := by
  refine Keeps.ite (keeps_updated hid (fun _ => rfl) (fun _ => ?_) fun row hrow =>
    keeps_absence hrow) (keeps_absence hid)
  split <;> rfl

theorem keeps_afterTargetState (hid : row.id = id) (hfresh : id ∉ others) :
    Keeps p base id others (afterTargetState a row) := by
  subst hid
  refine Keeps.ite (keeps_get fun _ =>
    Keeps.ite (fun db h => ?_) (keeps_wait rfl rfl)) (keeps_absence rfl)
  rw [wp_bind, wp_observe]
  exact (wp_finishDeleted h hfresh).mono (fun _ _ h' => ⟨List.nil_subset _, h'⟩) fun _ db' h' =>
    keeps_absence rfl db' h'

theorem keeps_approved (hid : row.id = id) : Keeps p base id others (approved a row) := by
  refine Keeps.ite (keeps_approval fun result => ?_) (keeps_absence hid)
  cases result with
  | ok u => exact keeps_wait rfl hid
  | error e => exact keeps_absence hid

theorem keeps_afterCapability (hid : row.id = id) :
    Keeps p base id others (afterCapability a row) :=
  keeps_refuseIf (Keeps.ite (keeps_approved hid) keeps_skip)

theorem keeps_provisioned (hid : row.id = id) (receipt : Option Receipt) :
    Keeps p base id others (provisioned a row receipt) :=
  Keeps.ite (Keeps.ite (keeps_wait rfl hid) keeps_skip) (keeps_approved hid)

theorem keeps_reported (hid : row.id = id) (receipt : Option Receipt) :
    Keeps p base id others (reported a row receipt) := by
  cases receipt with
  | none => exact keeps_provisioned hid none
  | some receipt =>
      exact Keeps.ite (keeps_updated_same hid (fun _ => rfl) (fun _ => ⟨rfl, rfl⟩) fun _ hrow =>
        keeps_provisioned hrow _)
        (keeps_provisioned hid _)

theorem keeps_afterRecoverState (hid : row.id = id) (receipt : Receipt) :
    Keeps p base id others (afterRecoverState a row receipt) := by
  refine Keeps.ite (keeps_get fun _ => keeps_get fun _ => ?_) keeps_skip
  split
  · refine Keeps.ite (keeps_updated hid (fun stored => ?_) (fun stored => ?_) fun row hrow =>
      ?_) keeps_skip
    · split <;> rfl
    · split <;> rfl
    · exact keeps_reported hrow (some receipt)
  · exact keeps_skip

theorem keeps_afterReceipt (hid : row.id = id) (hfresh : id ∉ others) :
    Keeps p base id others (afterReceipt a row) := by
  subst hid
  refine keeps_refuseIf ?_
  cases a.receipt with
  | none => exact keeps_reported rfl none
  | some receipt =>
      refine keeps_get fun _ =>
        Keeps.ite (keeps_finishDeleted hfresh fun _ => rfl) (Keeps.ite ?_ (Keeps.ite ?_ ?_))
      · -- A row that is still to be provisioned keeps its status.
        by_cases hstatus : row.status = .provisioningRequired
        · simp only [hstatus, if_true]
          exact keeps_updated_same rfl (fun _ => rfl) (fun _ => ⟨rfl, rfl⟩) fun _ _ => keeps_skip
        · simp only [hstatus, if_false]
          exact keeps_updated rfl (fun _ => rfl) (fun _ => rfl) fun _ _ => keeps_skip
      · refine keeps_approval fun result => ?_
        cases result with
        | ok u => exact keeps_wait rfl rfl
        | error e => exact keeps_skip
      · exact keeps_reported rfl (some receipt)

theorem keeps_lifecycle (hid : row.id = id) : Keeps p base id others (lifecycle a row) :=
  Keeps.ite (keeps_wait rfl hid) (keeps_approved hid)

theorem keeps_afterRequest (hid : row.id = id) : Keeps p base id others (afterRequest a row) :=
  Keeps.ite (keeps_updated hid (fun _ => rfl) (fun _ => rfl) fun _ hrow => keeps_lifecycle hrow)
    (keeps_lifecycle hid)

/-- The binding of a provisioned target is going to be stored. -/
def queues (a : Answers) (row : Restore) (approval : Approval) (db : Db) : Bool :=
  a.resolved && a.notSource &&
    match bindApproval row.id approval db with
    | .ok _ _ => true
    | .error _ _ => false

/-- The row is queued, unless its deletion has been requested. -/
theorem wp_afterAdmission (approval : Approval) (h : Sound p base (row.id :: others) [] db)
    (hopen : p → queues a row approval db = true → ∀ stored ∈ db.restores, stored.id = row.id →
      stored.cancelRequested = false) :
    wp (afterAdmission a row approval) (Ends p base row.id others)
      (fun _ => Sound p base others []) db := by
  unfold afterAdmission
  rw [wp_ite]
  refine ⟨fun hanswers => ?_, fun _ => keeps_skip db h⟩
  rw [wp_bind, wp_observe, wp_bind]
  refine (wp_bindApproval h approval).result.mono (fun u db' hbound => ?_) fun _ db' hrefused =>
    keeps_skip db' hrefused.2
  obtain ⟨hresult, hsound, hflags⟩ := hbound
  have hqueues : queues a row approval db = true := by rw [queues, hanswers, hresult, Bool.true_and]
  have hupdated : wp (updated row ({ · with status := .queued }))
      (fun row' db'' => row'.id = row.id ∧ Sound p base (row.id :: others) [] db'')
      (fun _ _ => False) db' := by
    refine wp_updated hsound (fun _ => rfl) fun stored hstored hkey => ?_
    refine ⟨.inr (.inr ⟨hsound.stored_live hstored hkey, rfl, List.not_mem_nil, fun hp => ?_⟩)⟩
    obtain ⟨old, hold, hid, hflag⟩ := hflags stored hstored
    exact hflag.trans (hopen hp hqueues old hold (hid.symm.trans hkey))
  exact hupdated.mono (fun row' db'' hrow' => keeps_claimNext hrow'.1 db'' hrow'.2) fun _ _ hE =>
    hE.elim

/-! ## The loop -/

/-- The rows that the loop is still to go through and that were not deleted when it began. -/
def liveIds (rows : List Restore) : List String := (rows.filter (·.status != .deleted)).map (·.id)

theorem liveIds_cons_deleted (h : row.status = .deleted) :
    liveIds (row :: rows) = liveIds rows := by
  simp [liveIds, h]

theorem liveIds_cons (h : row.status ≠ .deleted) :
    liveIds (row :: rows) = row.id :: liveIds rows := by
  simp [liveIds, h]

/-- What the dispatcher relies on where it stands. -/
def Progress.relied : Progress → List String
  | .waiting place rows => place.row?.toList.map (·.id) ++ liveIds rows
  | .finished => []
  | .claimed row => [row.id]

def Progress.started : Progress → List String
  | .claimed row => [row.id]
  | _ => []

/-- The loop ends a stretch with rows that are different, and that it may rely on. -/
def Stands (p : Prop) (base : Db) (progress : Progress) (db : Db) : Prop :=
  progress.relied.Nodup ∧ Sound p base progress.relied progress.started db

theorem keeps_body (hlive : row.status ≠ .deleted) : Keeps p base row.id others (body a row) := by
  unfold body
  rw [if_neg hlive]
  exact Keeps.ite (keeps_wait rfl rfl) (keeps_afterRequest rfl)

theorem stands_of_ends {flow : Flow} {f : Flow → Sync Progress}
    (hf : f = fun
      | .wait place => pure (.waiting place rows)
      | .skip => loop a rows
      | .claimed row => pure (.claimed row))
    (hloop : Sound p base (liveIds rows) [] db →
      wp (loop a rows) (Stands p base) (fun _ => Sound p base [] []) db)
    (hnodup : (id :: liveIds rows).Nodup) (h : Ends p base id (liveIds rows) flow db) :
    wp (f flow) (Stands p base) (fun _ => Sound p base [] []) db := by
  subst hf
  obtain ⟨hrelied, hsound⟩ := h
  cases flow with
  | skip => exact hloop hsound
  | claimed claimed =>
      exact ⟨List.nodup_singleton _, hsound.mono (List.subset_append_left _ _) (List.Subset.refl _)⟩
  | wait place =>
      refine ⟨?_, hsound⟩
      cases hrow : place.row? with
      | none => simpa [Progress.relied, hrow] using (List.nodup_cons.mp hnodup).2
      | some row =>
          have hid : row.id = id := by simpa [Flow.relied, hrow] using hrelied
          simpa [Progress.relied, hrow, hid] using hnodup

theorem wp_loop (hnodup : (liveIds rows).Nodup) (h : Sound p base (liveIds rows) [] db) :
    wp (loop a rows) (Stands p base) (fun _ => Sound p base [] []) db := by
  induction rows generalizing db with
  | nil => exact ⟨List.nodup_nil, h⟩
  | cons row rows ih =>
      by_cases hdeleted : row.status = .deleted
      · rw [liveIds_cons_deleted hdeleted] at hnodup h
        unfold loop body
        rw [if_pos hdeleted]
        exact ⟨by simpa [Progress.relied, Place.row?] using hnodup, h⟩
      · rw [liveIds_cons hdeleted] at hnodup h
        unfold loop
        refine ((keeps_body hdeleted db h).mono (fun _ _ hQ => hQ) fun _ _ hE =>
          ?_).bind fun flow db' hends => ?_
        · exact hE.mono (List.nil_subset _) (List.Subset.refl _)
        · exact stands_of_ends rfl (ih (List.nodup_cons.mp hnodup).2) hnodup hends

/-- From every await of the body but the one before a row is queued. -/
theorem keeps_resume {place : Place} (hplace : place.row? = some row) (hfresh : row.id ∉ others)
    (hother : ∀ row approval, place ≠ .admission row approval) :
    Keeps p base row.id others (resume a place) := by
  cases place with
  | deletedReceipt => cases hplace
  | admission row approval => exact absurd rfl (hother row approval)
  | request => cases hplace; exact keeps_afterRequest rfl
  | persistent => cases hplace; exact keeps_wait rfl rfl
  | receipt => cases hplace; exact keeps_afterReceipt rfl hfresh
  | recoverBinding =>
      cases hplace
      unfold resume
      cases a.resolved with
      | true => exact keeps_wait rfl rfl
      | false => exact keeps_skip
  | recoverState row receipt => cases hplace; exact keeps_afterRecoverState rfl receipt
  | capability => cases hplace; exact keeps_afterCapability rfl
  | targetState => cases hplace; exact keeps_afterTargetState rfl hfresh
  | stateBinding row state => cases hplace; exact keeps_afterStateBinding rfl state
  | verifiedAbsent => cases hplace; exact keeps_afterVerifiedAbsent rfl hfresh
  | binding =>
      cases hplace
      unfold resume
      cases a.resolved with
      | true => exact keeps_wait rfl rfl
      | false => exact keeps_skip

/-- No row is queued whose deletion has been requested. -/
def QueuesOpen (a : Answers) (place : Place) (db : Db) : Prop :=
  ∀ row approval, place = .admission row approval → queues a row approval db = true →
    ∀ stored ∈ db.restores, stored.id = row.id → stored.cancelRequested = false

theorem wp_resumeLoop {place : Place} (hnodup : (Progress.waiting place rows).relied.Nodup)
    (h : Sound p base (Progress.waiting place rows).relied [] db)
    (hopen : p → QueuesOpen a place db) :
    wp (resumeLoop a place rows) (Stands p base) (fun _ => Sound p base [] []) db := by
  unfold resumeLoop
  cases hrow : place.row? with
  | none =>
      have hplace : place = .deletedReceipt := by cases place <;> first | rfl | cases hrow
      subst hplace
      rw [wp_bind, resume, wp_bind, wp_refuseIf]
      exact ⟨fun _ => h.mono (List.nil_subset _) (List.Subset.refl _), fun _ => wp_loop hnodup h⟩
  | some row =>
      have hrelied : (Progress.waiting place rows).relied = row.id :: liveIds rows := by
        simp [Progress.relied, hrow]
      rw [hrelied] at hnodup h
      have hresume : wp (resume a place) (Ends p base row.id (liveIds rows))
          (fun _ => Sound p base (liveIds rows) []) db := by
        by_cases hadmission : ∃ row approval, place = .admission row approval
        · obtain ⟨row', approval, rfl⟩ := hadmission
          cases hrow
          exact wp_afterAdmission approval h fun hp => hopen hp row approval rfl
        · refine keeps_resume hrow (List.nodup_cons.mp hnodup).1 (fun row' approval heq => ?_) db h
          exact hadmission ⟨row', approval, heq⟩
      refine (hresume.mono (fun _ _ hQ => hQ) fun _ _ hE => ?_).bind fun flow db' hends => ?_
      · exact hE.mono (List.nil_subset _) (List.Subset.refl _)
      · exact stands_of_ends rfl (wp_loop (List.nodup_cons.mp hnodup).2) hnodup hends

/-! ## The running operation -/

/-- The row that an operation relies on. -/
def Work.relied (work : Work) : List String := if work.owns then [work.id] else []

/-- A stretch of an operation goes on with its row, or is over. -/
def Works (p : Prop) (base : Db) (id : String) (work : Work) (db : Db) : Prop :=
  work.relied ⊆ [id] ∧ Sound p base work.relied work.relied db

/-- A stretch of an operation that starts with its row and never throws. -/
def Carries (p : Prop) (base : Db) (id : String) (x : Sync Work) : Prop :=
  ∀ db, Sound p base [id] [id] db → wp x (Works p base id) (fun _ _ => False) db

theorem carries_pure {work : Work} (hrelied : work.relied ⊆ [id]) :
    Carries p base id (pure work) := fun _ h =>
  ⟨hrelied, h.mono hrelied hrelied⟩

theorem carries_row {work : Work} (hid : work.id = id) : Carries p base id (pure work) := by
  refine carries_pure ?_
  unfold Work.relied
  split
  · rw [hid]
    exact List.Subset.refl _
  · exact List.nil_subset _

theorem Carries.ite {c : Prop} [Decidable c] {x y : Sync Work} (hx : Carries p base id x)
    (hy : Carries p base id y) :
    Carries p base id (if c then x else y) := by
  split
  · exact hx
  · exact hy

theorem carries_get {f : Db → Sync Work} (hf : ∀ db, Carries p base id (f db)) :
    Carries p base id (get >>= f) := by
  intro db h
  rw [wp_bind, wp_get]
  exact hf db db h

/-- What may happen to a row by the operation that has it. -/
theorem carries_updated {f : Restore → Sync Work} (hid : row.id = id)
    (hkey : ∀ row, (set row).id = row.id)
    (hset : ∀ stored : Restore, (set stored).status.isRemovable = true ∨
      (set stored).status = stored.status)
    (hf : ∀ row : Restore, row.id = id → Carries p base id (f row)) :
    Carries p base id (updated row set >>= f) := by
  subst hid
  intro db h
  refine (wp_updated h hkey fun stored hstored hid => ?_).bind fun row' db' hrow' =>
    hf row' hrow'.1 db' hrow'.2
  rcases hset stored with hremovable | hsame
  · exact ⟨.inl ⟨h.stored_live hstored hid, hremovable⟩⟩
  · exact ⟨.inr (.inl ⟨hsame, .inr (.inl (hid ▸ List.mem_cons_self))⟩)⟩

theorem carries_caughtCleanup (hid : row.id = id) (directory : Bool) :
    Carries p base id (caughtCleanup row directory) := by
  refine carries_updated hid (fun _ => rfl) (fun _ => .inl rfl) fun _ _ => carries_row ?_
  cases directory <;> exact hid

theorem carries_caughtExecute (hid : row.id = id) : Carries p base id (caughtExecute row) :=
  carries_updated hid (fun _ => rfl) (fun _ => .inr rfl) fun _ hrow => carries_row hrow

theorem carries_isCancelled {f : Bool → Sync Work}
    (hf : ∀ cancelled, Carries p base id (f cancelled)) :
    Carries p base id (isCancelled row >>= f) := by
  intro db h
  exact hf _ db h

theorem carries_modify {f : Db → Db} {g : PUnit → Sync Work}
    (hf : ∀ db, Sound p base [id] [id] db → Sound p base [id] [id] (f db))
    (hg : ∀ u, Carries p base id (g u)) :
    Carries p base id (modify f >>= g) := by
  intro db h
  rw [wp_bind, wp_modify]
  exact hg _ _ (hf db h)

theorem carries_afterPreparing (hid : row.id = id) : Carries p base id (afterPreparing a row) :=
  carries_isCancelled fun _ => Carries.ite (carries_caughtExecute hid) (carries_row hid)

theorem carries_afterAdmitting (hid : row.id = id) : Carries p base id (afterAdmitting a row) :=
  carries_get fun _ => Carries.ite (carries_caughtExecute hid) (carries_row hid)

theorem carries_afterWithdrawing (hid : row.id = id) : Carries p base id (afterWithdrawing a row) :=
  Carries.ite (carries_updated hid (fun _ => rfl) (fun _ => .inl rfl) fun _ _ => carries_row hid)
    (carries_caughtExecute hid)

theorem carries_afterCleaning (hid : row.id = id) : Carries p base id (afterCleaning a row) :=
  Carries.ite (carries_caughtCleanup hid _)
    (Carries.ite (carries_row hid) (Carries.ite (carries_row hid) (carries_row hid)))

theorem carries_afterRemoving (hid : row.id = id) : Carries p base id (afterRemoving a row) := by
  unfold afterRemoving
  split
  · exact carries_modify (fun _ h => h.removeLease row.id) fun _ => carries_row hid
  · exact carries_row hid
  · exact carries_caughtCleanup hid true

theorem carries_afterWorkBinding (hid : row.id = id) :
    Carries p base id (afterWorkBinding a row) := by
  refine Carries.ite (fun db h => ?_) (carries_caughtCleanup hid true)
  rw [wp_bind, wp_observe]
  exact (wp_bindApproval h a.approval).mono (fun _ db' h' =>
    carries_caughtCleanup hid true db' h'.1)
    fun _ db' h' => carries_caughtCleanup hid true db' h'

theorem carries_afterEmptying (hid : row.id = id) : Carries p base id (afterEmptying a row) := by
  refine Carries.ite (carries_caughtCleanup hid true) (Carries.ite ?_ fun db h => ?_)
  · exact carries_updated hid (fun _ => rfl) (fun _ => .inl rfl) fun _ hrow => carries_row hrow
  · rw [wp_bind, wp_observe]
    subst hid
    refine (wp_finishDeleted h List.not_mem_nil).mono (fun _ db' h' => ?_) fun _ db' h' =>
      carries_caughtCleanup rfl false db' h'
    exact ⟨List.nil_subset _, h'.mono (List.Subset.refl _) (List.nil_subset _)⟩

theorem carries_afterRequesting (hid : row.id = id) : Carries p base id (afterRequesting a row) :=
  Carries.ite (carries_row hid) (carries_caughtCleanup hid false)

theorem carries_afterClearing (hid : row.id = id) : Carries p base id (afterClearing a row) :=
  Carries.ite (carries_row hid) (carries_updated hid (fun _ => rfl) (fun _ => .inl rfl) fun _ _ =>
    carries_row hid)

/-- A lease is added at the start of a stretch. -/
theorem wp_afterImporting (h : Sound p db [row.id] [row.id] db) :
    wp (afterImporting a row) (Works p db row.id) (fun _ _ => False) db := by
  unfold afterImporting
  split
  · have hrow : (Work.importing row).id = row.id := rfl
    refine carries_updated rfl ?_ ?_ (fun _ _ => carries_row hrow) db h
    · exact fun _ => rfl
    · exact fun _ => .inr rfl
  · rw [wp_bind, wp_observe]
    exact (wp_addLease h _).mono (fun _ db' h' => carries_row rfl db' h') fun _ db' h' =>
      carries_caughtExecute rfl db' h'
  · exact carries_modify (fun _ h => h.leaseState row.id _) (fun _ => carries_row rfl) db h
  · exact carries_isCancelled (fun _ =>
      Carries.ite (carries_caughtExecute rfl) (carries_row rfl)) db h
  · exact carries_caughtExecute rfl db h
  · exact carries_caughtExecute rfl db h

theorem wp_work {work : Work} (howns : work.owns = true) (h : Sound p db [work.id] [work.id] db) :
    wp (work.resume a) (Works p db work.id) (fun _ _ => False) db := by
  cases work with
  | preparing row => exact carries_afterPreparing rfl db h
  | admitting row => exact carries_afterAdmitting rfl db h
  | importing row => exact wp_afterImporting h
  | withdrawing row => exact carries_afterWithdrawing rfl db h
  | cleaning row => exact carries_afterCleaning rfl db h
  | removing row => exact carries_afterRemoving rfl db h
  | binding row => exact carries_afterWorkBinding rfl db h
  | emptying row => exact carries_afterEmptying rfl db h
  | requesting row => exact carries_afterRequesting rfl db h
  | clearing row => exact carries_afterClearing rfl db h
  | inspecting | settled => cases howns

end Pluton.DatabaseRestore
