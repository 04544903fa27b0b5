-- SUMMARY: What every operation on the outbox keeps: limits, final rows, leases that end once.
import Pluton.Notifications.Store

/-!
# The outbox keeps its limits

`Sound` is what holds of the tables, `Evolves` what an operation may do to the deliveries.
Each operation has one lemma with both.
-/
namespace Pluton.Notifications

open Except

/-! ## Rows -/

/-- The counters of a row are within their limits, and a row that waits has attempts left. -/
structure DeliveryRow.Sound (row : DeliveryRow) : Prop where
  attempts : row.attemptCount ≤ 20
  cycle : row.cycleAttempts ≤ 5
  manual : row.manualRetries ≤ 3
  claimable : row.status = .pending → row.cycleAttempts < 5 ∧ row.attemptCount < 20

/-- What an operation may make of a row, where the owners below `bound` have had their claim:
a row that succeeded stays, and none of them gets a lease it had not. -/
structure DeliveryRow.Moves (bound : Nat) (row row' : DeliveryRow) : Prop where
  id : row'.id = row.id
  final : row.status = .succeeded → row' = row
  lease : ∀ o < bound, row'.status = .sending → row'.leaseOwner = some o →
    row.status = .sending ∧ row.leaseOwner = some o ∧
    row'.attemptCount = row.attemptCount ∧ row'.cycleAttempts = row.cycleAttempts

namespace DeliveryRow

variable {row row' row'' g : DeliveryRow} {bound bound' now : Nat}

theorem Moves.refl : Moves bound row row :=
  ⟨rfl, fun _ => rfl, fun _ _ hstatus howner => ⟨hstatus, howner, rfl, rfl⟩⟩

theorem Moves.trans (h : Moves bound row row') (h' : Moves bound' row' row'')
    (hle : bound ≤ bound') : Moves bound row row'' where
  id := h'.id.trans h.id
  final hstatus := by
    have heq := h.final hstatus
    rw [← heq] at hstatus
    exact (h'.final hstatus).trans heq
  lease o ho hstatus howner := by
    obtain ⟨hstatus', howner', hattempts', hcycle'⟩ :=
      h'.lease o (Nat.lt_of_lt_of_le ho hle) hstatus howner
    obtain ⟨hold, hownerold, hattempts, hcycle⟩ := h.lease o ho hstatus' howner'
    exact ⟨hold, hownerold, hattempts'.trans hattempts, hcycle'.trans hcycle⟩

/-- A row that is not final, and that nobody is sending afterwards. -/
theorem Moves.of_not_sending (hid : row'.id = row.id) (hfinal : row.status ≠ .succeeded)
    (hsending : row'.status ≠ .sending) :
    Moves bound row row' :=
  ⟨hid, fun h => absurd h hfinal, fun _ _ hstatus => absurd hstatus hsending⟩

theorem not_exhausted : row.exhausted = false ↔ row.cycleAttempts < 5 ∧ row.attemptCount < 20 := by
  simp [exhausted]

theorem owns_eq_true : g.owns row = true ↔ row.id = g.id ∧ row.status = .sending ∧ ∃ o,
    row.leaseOwner = some o ∧ g.leaseOwner = some o := by
  simp only [owns, Bool.and_eq_true, beq_iff_eq, and_assoc]
  refine and_congr_right fun _ => and_congr_right fun _ => ?_
  cases row.leaseOwner with
  | none => simp
  | some o => simp [eq_comm]

theorem sound_interrupt (h : row.Sound) : (row.interrupt now).Sound where
  attempts := h.attempts
  cycle := h.cycle
  manual := h.manual
  claimable hstatus := by
    cases hexhausted : row.exhausted with
    | false => exact not_exhausted.mp hexhausted
    | true => simp [interrupt, hexhausted] at hstatus

theorem interrupt_not_sending : (row.interrupt now).status ≠ .sending := by
  cases hexhausted : row.exhausted <;> simp [interrupt, hexhausted]

theorem finish_not_sending {result : DeliveryResult} :
    (row.finish g result now).status ≠ .sending := by
  unfold finish
  dsimp only
  split
  · nofun
  · split <;> nofun

/-- The counters of the delivery are those of its row. -/
theorem sound_finish {result : DeliveryResult} (h : row.Sound)
    (hattempts : row.attemptCount = g.attemptCount) (hcycle : row.cycleAttempts = g.cycleAttempts) :
    (row.finish g result now).Sound where
  attempts := h.attempts
  cycle := h.cycle
  manual := h.manual
  claimable hstatus := by
    have hretries : g.retries result = true := by
      unfold finish at hstatus
      dsimp only at hstatus
      split at hstatus
      · cases hstatus
      · split at hstatus
        · assumption
        · cases hstatus
    simp only [retries, Bool.and_eq_true, decide_eq_true_eq] at hretries
    exact ⟨by rw [finish, hcycle]; exact hretries.1.2, by rw [finish, hattempts]; exact hretries.2⟩

end DeliveryRow

namespace Tables

/-! ## Tables -/

structure Sound (t : Tables) : Prop where
  ids : (t.deliveries.map (·.id)).Nodup
  fresh : ∀ row ∈ t.deliveries, row.id < t.nextId
  owners : ∀ row ∈ t.deliveries, ∀ o, row.leaseOwner = some o → o < t.nextId
  rows : ∀ row ∈ t.deliveries, row.Sound
  sending : t.sendingCount ≤ 2
  pending : t.pendingCount ≤ maxPending
  once : (t.deliveries.map fun row => (row.eventId, row.channelId)).Nodup
  keys : (t.events.map (·.logicalKey)).Nodup

/-- Every row moves, or it is a new one. -/
structure Evolves (t t' : Tables) : Prop where
  next : t.nextId ≤ t'.nextId
  rows : ∀ row' ∈ t'.deliveries,
    (∃ row ∈ t.deliveries, row.Moves t.nextId row') ∨ t.nextId ≤ row'.id

structure Good (t t' : Tables) : Prop where
  sound : Sound t'
  evolves : Evolves t t'

variable {t t' t'' : Tables} {now : Nat}

theorem Evolves.trans (h : Evolves t t') (h' : Evolves t' t'') : Evolves t t'' where
  next := Nat.le_trans h.next h'.next
  rows row'' hrow'' := by
    rcases h'.rows row'' hrow'' with ⟨row', hrow', hmoves'⟩ | hnew
    · rcases h.rows row' hrow' with ⟨row, hrow, hmoves⟩ | hnew
      · exact .inl ⟨row, hrow, hmoves.trans hmoves' h.next⟩
      · exact .inr (hmoves'.id ▸ hnew)
    · exact .inr (Nat.le_trans h.next hnew)

theorem Good.trans (h : Good t t') (h' : Good t' t'') : Good t t'' :=
  ⟨h'.sound, h.evolves.trans h'.evolves⟩

/-- The deliveries and the events lose rows at most. -/
theorem Sound.sublist (h : Sound t) (hdeliveries : t'.deliveries.Sublist t.deliveries)
    (hevents : t'.events.Sublist t.events) (hnext : t.nextId ≤ t'.nextId) : Good t t' where
  sound :=
    { ids := h.ids.sublist (hdeliveries.map _)
      fresh := fun row hrow => Nat.lt_of_lt_of_le (h.fresh row (hdeliveries.subset hrow)) hnext
      owners :=
        fun row hrow o ho => Nat.lt_of_lt_of_le (h.owners row (hdeliveries.subset hrow) o ho) hnext
      rows := fun row hrow => h.rows row (hdeliveries.subset hrow)
      sending := Nat.le_trans (hdeliveries.filter _).length_le h.sending
      pending := Nat.le_trans (hdeliveries.filter _).length_le h.pending
      once := h.once.sublist (hdeliveries.map _)
      keys := h.keys.sublist (hevents.map _) }
  evolves := ⟨hnext, fun row hrow => .inl ⟨row, hdeliveries.subset hrow, .refl⟩⟩

theorem Sound.frame (h : Sound t) (hdeliveries : t'.deliveries = t.deliveries)
    (hevents : t'.events = t.events) (hnext : t.nextId ≤ t'.nextId) : Good t t' :=
  h.sublist (hdeliveries ▸ .refl _) (hevents ▸ .refl _) hnext

theorem Sound.good (h : Sound t) : Good t t := h.frame rfl rfl (Nat.le_refl _)

theorem Sound.update (h : Sound t) {cond : DeliveryRow → Bool} {set : DeliveryRow → DeliveryRow}
    {next : Nat} (hnext : t.nextId ≤ next)
    (hkeep : ∀ row, (set row).id = row.id ∧ (set row).eventId = row.eventId ∧
      (set row).channelId = row.channelId)
    (hmoves : ∀ row ∈ t.deliveries, cond row = true → row.Moves t.nextId (set row))
    (howners : ∀ row ∈ t.deliveries, cond row = true →
      ∀ o, (set row).leaseOwner = some o → o < next)
    (hrows : ∀ row ∈ t.deliveries, cond row = true → (set row).Sound)
    (hsending : { t with deliveries := Table.update t.deliveries cond set }.sendingCount ≤ 2)
    (hpending : { t with deliveries := Table.update t.deliveries cond set }.pendingCount ≤
      maxPending) :
    Good t { t with deliveries := Table.update t.deliveries cond set, nextId := next } := by
  have hcases : ∀ row' ∈ Table.update t.deliveries cond set, ∃ row ∈ t.deliveries, row' = row ∨
      cond row = true ∧ row' = set row := by
    intro row' hrow'
    obtain ⟨row, hrow, rfl⟩ := Table.mem_update.mp hrow'
    refine ⟨row, hrow, ?_⟩
    split
    · next hcond => exact .inr ⟨hcond, rfl⟩
    · exact .inl rfl
  refine ⟨⟨Table.nodup_update (fun row => (hkeep row).1) h.ids, fun row' hrow' => ?_,
    fun row' hrow' o ho => ?_, fun row' hrow' => ?_,
    hsending, hpending, ?_, h.keys⟩, hnext, fun row' hrow' => .inl ?_⟩
  · obtain ⟨row, hrow, rfl | ⟨-, rfl⟩⟩ := hcases row' hrow'
    · exact Nat.lt_of_lt_of_le (h.fresh row' hrow) hnext
    · rw [(hkeep row).1]
      exact Nat.lt_of_lt_of_le (h.fresh row hrow) hnext
  · obtain ⟨row, hrow, rfl | ⟨hcond, rfl⟩⟩ := hcases row' hrow'
    · exact Nat.lt_of_lt_of_le (h.owners row' hrow o ho) hnext
    · exact howners row hrow hcond o ho
  · obtain ⟨row, hrow, rfl | ⟨hcond, rfl⟩⟩ := hcases row' hrow'
    · exact h.rows row' hrow
    · exact hrows row hrow hcond
  · exact Table.nodup_update (fun row => Prod.ext (hkeep row).2.1 (hkeep row).2.2) h.once
  · obtain ⟨row, hrow, rfl | ⟨hcond, rfl⟩⟩ := hcases row' hrow'
    · exact ⟨row', hrow, .refl⟩
    · exact ⟨row, hrow, hmoves row hrow hcond⟩

/-! ## Claims -/

theorem isOpen_of_sending {row : DeliveryRow} (h : row.status = .sending) :
    row.status.isOpen = true := by rw [h]; rfl

theorem recover_good (h : Sound t) (now : Nat) : Good t (t.recover now) := by
  have hstatus : ∀ row ∈ t.deliveries,
      (row.status == .sending && row.leaseUntil.any (· ≤ now)) = true → row.status = .sending :=
    fun row _ hcond => beq_iff_eq.mp (Bool.and_eq_true_iff.mp hcond).1
  refine h.update (Nat.le_refl _) (fun _ => ⟨rfl, rfl, rfl⟩) (fun row hrow hcond => ?_)
    (fun _ _ _ _ ho => by cases ho)
    (fun row hrow _ => DeliveryRow.sound_interrupt (h.rows row hrow)) ?_ ?_
  · exact .of_not_sending rfl
      (by rw [hstatus row hrow hcond]; nofun) DeliveryRow.interrupt_not_sending
  · refine Nat.le_trans (Table.length_filter_update_le fun row hrow hcond _ => ?_) h.sending
    exact beq_iff_eq.mpr (hstatus row hrow hcond)
  · refine Nat.le_trans (Table.length_filter_update_le fun row hrow hcond _ => ?_) h.pending
    exact isOpen_of_sending (hstatus row hrow hcond)

/-- A row that waits is taken by an owner who has had no claim before. -/
theorem take_good (h : Sound t) (id now : Nat) (hroom : t.sendingCount < 2) :
    Good t { t.take id t.nextId now with nextId := t.nextId + 1 } := by
  have hstatus : ∀ row ∈ t.deliveries, (row.id == id && row.status == .pending) = true →
      row.id = id ∧ row.status = .pending :=
    fun row _ hcond => (Bool.and_eq_true_iff.mp hcond).imp beq_iff_eq.mp beq_iff_eq.mp
  refine h.update (Nat.le_succ _) (fun _ => ⟨rfl, rfl, rfl⟩) (fun row hrow hcond => ?_)
    (fun _ _ _ o ho => ?_) (fun row hrow hcond => ?_) ?_ ?_
  · refine ⟨rfl, fun hfinal => ?_, fun o ho _ howner => ?_⟩
    · rw [(hstatus row hrow hcond).2] at hfinal
      cases hfinal
    · cases howner
      exact absurd ho (Nat.lt_irrefl _)
  · cases ho
    exact Nat.lt_succ_self _
  · obtain ⟨hcycle, hattempts⟩ := (h.rows row hrow).claimable (hstatus row hrow hcond).2
    exact ⟨hattempts, hcycle, (h.rows row hrow).manual, nofun⟩
  · exact Nat.le_trans (Table.length_filter_update_key_le h.ids fun row hrow hcond =>
      (hstatus row hrow hcond).1) hroom
  · refine Nat.le_trans (Table.length_filter_update_le fun row hrow hcond _ => ?_) h.pending
    rw [(hstatus row hrow hcond).2]
    rfl

theorem claim_good (h : Sound t) (now : Nat) : Good t (t.claim now).1 := by
  have hrecovered := recover_good h now
  have hnext : Good t { t.recover now with nextId := t.nextId + 1 } :=
    hrecovered.trans (hrecovered.sound.frame rfl rfl (Nat.le_succ _))
  unfold claim
  dsimp only
  split
  · exact hnext
  · next hroom =>
    split
    · exact hnext
    · exact hrecovered.trans (take_good hrecovered.sound _ now (Nat.lt_of_not_le hroom))

/-- A delivery that was handed out with the counters of its row is finished. -/
theorem finish_good (h : Sound t) (g : Delivery) (result : DeliveryResult) (now : Nat)
    (hgrant : ∀ row ∈ t.deliveries, g.row.owns row = true →
      row.attemptCount = g.row.attemptCount ∧ row.cycleAttempts = g.row.cycleAttempts) :
      Good t (t.finish g result now) := by
  have hstatus : ∀ row, g.row.owns row = true →
      row.status = .sending := fun row hcond => (DeliveryRow.owns_eq_true.mp hcond).2.1
  refine h.update (Nat.le_refl _) (fun _ => ⟨rfl, rfl, rfl⟩) (fun row hrow hcond => ?_)
    (fun _ _ _ _ ho => by cases ho)
    (fun row hrow hcond => ?_) ?_ ?_
  · exact .of_not_sending rfl (by rw [hstatus row hcond]; nofun) DeliveryRow.finish_not_sending
  · obtain ⟨hattempts, hcycle⟩ := hgrant row hrow hcond
    exact DeliveryRow.sound_finish (h.rows row hrow) hattempts hcycle
  · refine Nat.le_trans (Table.length_filter_update_le fun row hrow hcond _ => ?_) h.sending
    exact beq_iff_eq.mpr (hstatus row hcond)
  · refine Nat.le_trans (Table.length_filter_update_le fun row hrow hcond _ => ?_) h.pending
    exact isOpen_of_sending (hstatus row hcond)

/-- A delivery that can be retried has retries and attempts left. -/
theorem delivery_canRetry {id : Nat} {delivery : Delivery} (hfound : t.delivery id = some delivery)
    (hcan : delivery.canRetry = true) :
    ∃ row, t.deliveries.find? (·.id == id) = some row ∧ row.manualRetries < 3 ∧
      row.attemptCount < 20 := by
  unfold Tables.delivery at hfound
  obtain ⟨row, hrow, hview⟩ := Option.bind_eq_some_iff.mp hfound
  obtain ⟨event, -, rfl⟩ := Option.map_eq_some_iff.mp hview
  simp only [deliveryView, Bool.and_eq_true, decide_eq_true_eq] at hcan
  exact ⟨row, hrow, hcan.1.1.1.2, hcan.1.1.2⟩

theorem retry_good (h : Sound t) (id now : Nat) (hretry : t.retry id now = .ok t') : Good t t' := by
  unfold retry at hretry
  split at hretry
  · cases hretry
  next delivery hfound =>
  simp only [bind_eq_ok, refuseIf_eq_ok, pure_eq_ok] at hretry
  obtain ⟨-, hcan, -, hroom, rfl⟩ := hretry
  have hstatus : ∀ row ∈ t.deliveries, (row.id == id && row.status == .failed) = true →
      row.id = id ∧ row.status = .failed :=
    fun row _ hcond => (Bool.and_eq_true_iff.mp hcond).imp beq_iff_eq.mp beq_iff_eq.mp
  obtain ⟨found, hrow, hmanual, hattempts⟩ := delivery_canRetry hfound (by simpa using hcan)
  refine h.update (Nat.le_refl _) (fun _ => ⟨rfl, rfl, rfl⟩) (fun row hrow hcond => ?_)
    (fun row hrow _ o ho => h.owners row hrow o ho) (fun row hrow' hcond => ?_) ?_ ?_
  · exact .of_not_sending rfl (by rw [(hstatus row hrow hcond).2]; rintro ⟨⟩) (by rintro ⟨⟩)
  · -- The row of the id is the one whose limits were checked.
    have hsame : found = row :=
      Option.some.inj (hrow.symm.trans ((hstatus row hrow' hcond).1 ▸ Table.find?_key h.ids hrow'))
    rw [hsame] at hmanual hattempts
    exact ⟨Nat.le_of_lt hattempts, Nat.zero_le 5, hmanual, fun _ => ⟨Nat.zero_lt_succ 4, hattempts⟩⟩
  · exact Nat.le_trans (Table.length_filter_update_le fun _ _ _ hset => by cases hset) h.sending
  · refine Nat.le_trans (Table.length_filter_update_key_le h.ids fun row hrow hcond =>
      (hstatus row hrow hcond).1) ?_
    exact Nat.lt_of_not_le (of_decide_eq_false hroom)

/-! ## New deliveries -/

theorem insertDelivery_good (h : Sound t) (eventId now : Nat) (channel : ChannelRow)
    (hroom : t.pendingCount < maxPending) :
    Good t (t.insertDelivery eventId now channel) ∧
    (t.insertDelivery eventId now channel).pendingCount ≤ t.pendingCount + 1 := by
  unfold insertDelivery
  split
  · exact ⟨h.good, Nat.le_succ _⟩
  · next hnew =>
    have hcount : ∀ row : DeliveryRow,
        ((t.deliveries ++ [row]).filter (·.status.isOpen)).length ≤ t.pendingCount + 1 := by
      intro row
      rw [List.filter_append, List.length_append]
      exact Nat.add_le_add_left (List.length_filter_le _ _) _
    refine ⟨⟨⟨?_, ?_, ?_, ?_, ?_, Nat.le_trans (hcount _) hroom, ?_, h.keys⟩, Nat.le_succ _, ?_⟩,
      hcount _⟩
    · rw [List.map_append, List.map_singleton, List.nodup_append]
      refine ⟨h.ids, List.nodup_singleton _, fun id hid other hother => ?_⟩
      obtain ⟨row, hrow, rfl⟩ := List.mem_map.mp hid
      rw [List.mem_singleton.mp hother]
      exact Nat.ne_of_lt (h.fresh row hrow)
    · rw [List.forall_mem_append, List.forall_mem_singleton]
      exact ⟨fun row hrow => Nat.lt_succ_of_lt (h.fresh row hrow), Nat.lt_succ_self _⟩
    · rw [List.forall_mem_append, List.forall_mem_singleton]
      exact ⟨fun row hrow o ho => Nat.lt_succ_of_lt (h.owners row hrow o ho), nofun⟩
    · rw [List.forall_mem_append, List.forall_mem_singleton]
      exact ⟨h.rows, Nat.zero_le 20, Nat.zero_le 5, Nat.zero_le 3,
        fun _ => ⟨Nat.zero_lt_succ 4, Nat.zero_lt_succ 19⟩⟩
    · simpa [sendingCount] using h.sending
    · rw [List.map_append, List.map_singleton, List.nodup_append]
      refine ⟨h.once, List.nodup_singleton _, fun key hkey other hother => ?_⟩
      obtain ⟨row, hrow, rfl⟩ := List.mem_map.mp hkey
      rw [List.mem_singleton.mp hother]
      intro heq
      refine hnew (List.any_eq_true.mpr ⟨row, hrow, ?_⟩)
      simpa using heq
    · rw [List.forall_mem_append, List.forall_mem_singleton]
      exact ⟨fun row hrow => .inl ⟨row, hrow, .refl⟩, .inr (Nat.le_refl _)⟩

theorem insertDeliveries_good (h : Sound t) (eventId now : Nat) (channels : List ChannelRow)
    (hroom : t.pendingCount + channels.length ≤ maxPending) :
    Good t (channels.foldl (fun t channel => t.insertDelivery eventId now channel) t) := by
  induction channels generalizing t with
  | nil => exact h.good
  | cons channel channels ih =>
      rw [List.length_cons] at hroom
      obtain ⟨hgood, hcount⟩ := insertDelivery_good h eventId now channel (by omega)
      exact hgood.trans (ih hgood.sound (by omega))

theorem insertEventRow_good (h : Sound t) (key eventType : String) (planId : Option String)
    (now : Nat) :
    Good t (t.insertEventRow key eventType planId now) := by
  unfold insertEventRow
  split
  · exact h.good
  · next hnew =>
    refine ⟨⟨h.ids, fun row hrow => Nat.lt_succ_of_lt (h.fresh row hrow),
      fun row hrow o ho => Nat.lt_succ_of_lt (h.owners row hrow o ho), h.rows, h.sending,
      h.pending, h.once, ?_⟩,
      Nat.le_succ _, fun row hrow => .inl ⟨row, hrow, .refl⟩⟩
    rw [List.map_append, List.map_singleton, List.nodup_append]
    refine ⟨h.keys, List.nodup_singleton _, fun key' hkey other hother => ?_⟩
    obtain ⟨event, hevent, rfl⟩ := List.mem_map.mp hkey
    rw [List.mem_singleton.mp hother]
    exact fun heq => hnew (List.any_eq_true.mpr ⟨event, hevent, beq_iff_eq.mpr heq⟩)

theorem insertEventRow_deliveries {key eventType : String} {planId : Option String} :
    (t.insertEventRow key eventType planId now).deliveries = t.deliveries := by
  unfold insertEventRow
  split <;> rfl

theorem insertEvent_good (h : Sound t) (key eventType : String) (planId : Option String)
    (channels : List ChannelRow) (now : Nat)
    (hroom : t.pendingCount + channels.length ≤ maxPending) :
    Good t (t.insertEvent key eventType planId channels now) := by
  have hevent := insertEventRow_good h key eventType planId now
  unfold insertEvent
  dsimp only
  split
  · exact hevent
  · refine hevent.trans (insertDeliveries_good hevent.sound _ now channels ?_)
    rw [pendingCount, insertEventRow_deliveries]
    exact hroom

/-- The event of a job is recorded where there is room for its deliveries. -/
theorem record_good (h : Sound t) (source : SourceRow) (job : Job) (channels : List ChannelRow)
    (now : Nat) (hroom : t.pendingCount + channels.length ≤ maxPending) :
    Good t (t.record source job channels now) := by
  unfold record
  dsimp only
  split
  · exact h.frame rfl rfl (Nat.le_refl _)
  · have hevent :=
      insertEvent_good h (logicalKey job.kind job.id job.status) job.eventType
        (some job.planId) channels now hroom
    exact hevent.trans (hevent.sound.frame rfl rfl (Nat.le_refl _))

theorem project_good (h : Sound t) (source : SourceRow) (now : Nat)
    (hproject : t.project source now = some t') : Good t t' := by
  unfold project at hproject
  split at hproject
  · cases hproject
    exact h.good
  next job hjob =>
  dsimp only at hproject
  split at hproject
  · cases hproject
    exact h.frame rfl rfl (Nat.le_refl _)
  split at hproject
  · cases hproject
  next hroom =>
  cases hproject
  have hrecord := record_good h source job _ now (Nat.le_of_not_lt hroom)
  exact hrecord.trans (hrecord.sound.frame rfl rfl (Nat.le_refl _))

theorem projectAll_good (h : Sound t) (now : Nat) (sources : List SourceRow) :
    Good t (projectAll now t sources) := by
  induction sources generalizing t with
  | nil => exact h.good
  | cons source sources ih =>
      unfold projectAll
      split
      · exact h.good
      · next hproject =>
        have hgood := project_good h source now hproject
        exact hgood.trans (ih hgood.sound)

theorem test_good (h : Sound t) (channelId now : Nat) (htest : t.test channelId now = .ok t') :
    Good t t' := by
  unfold test at htest
  split at htest
  · cases htest
  simp only [bind_eq_ok, refuseIf_eq_ok, pure_eq_ok] at htest
  obtain ⟨-, -, -, -, -, hroom, rfl⟩ := htest
  exact insertEvent_good h _ _ _ _ now (Nat.lt_of_not_le (of_decide_eq_false hroom))

theorem maintenance_good (h : Sound t) (now : Nat) : Good t (t.maintenance now) :=
  h.sublist (List.filter_sublist.trans List.filter_sublist) List.filter_sublist (Nat.le_refl _)

end Tables

end Pluton.Notifications
