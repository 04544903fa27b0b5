-- SUMMARY: Runs of the outbox: limits, one delivery each, leases, final rows and no lost event.
import Pluton.Notifications.Outbox

/-!
# Runs of the outbox

The limits come from `Good`, the fate of a row or of a lease over a run from `Evolves`. A
source loses its mark in the projection only, which records the status first.
-/
namespace Pluton.Notifications

open Except

namespace Tables

variable {t t' t'' : Tables} {now : Nat}

/-! ## Sources -/

/-- The status in which the job of the source has ended was recorded. -/
def Recorded (t : Tables) (source : SourceRow) : Prop :=
  ∃ job ∈ t.jobs, job.kind = source.kind ∧ job.id = source.jobId ∧ job.terminal = true ∧
    (source.id, job.status) ∈ t.observed

structure SourcesSound (t : Tables) : Prop where
  ids : (t.sources.map (·.id)).Nodup
  fresh : ∀ source ∈ t.sources, source.id < t.nextSource

/-- A source is a new one, or it keeps its job, and its mark unless its outcome is recorded. -/
structure Marks (t t' : Tables) : Prop where
  sound : SourcesSound t'
  next : t.nextSource ≤ t'.nextSource
  sources : ∀ source' ∈ t'.sources, t.nextSource ≤ source'.id ∨
    ∃ source ∈ t.sources, source.id = source'.id ∧ (source.ready = true →
      source'.ready = true ∨ Recorded t' source')

theorem SourcesSound.marks_frame (h : SourcesSound t) (hsources : t'.sources = t.sources)
    (hnext : t'.nextSource = t.nextSource) :
    Marks t t' where
  sound := ⟨hsources ▸ h.ids, fun source hsource => hnext ▸ h.fresh source (hsources ▸ hsource)⟩
  next := Nat.le_of_eq hnext.symm
  sources source' hsource' := .inr ⟨source', hsources ▸ hsource', rfl, fun hready => .inl hready⟩

/-! ### The projection -/

/-- What the turns of a projection keep of the tables they began with. -/
structure Projects (t₀ t : Tables) : Prop where
  jobs : t.jobs = t₀.jobs
  plans : t.plans = t₀.plans
  next : t.nextSource = t₀.nextSource
  ids : t.sources.map (·.id) = t₀.sources.map (·.id)
  sources : ∀ source' ∈ t.sources, ∃ source ∈ t₀.sources,
    source.id = source'.id ∧ source.kind = source'.kind ∧
    source.jobId = source'.jobId ∧ (source.ready = true → source'.ready = true ∨ Recorded t source')

theorem Projects.refl : Projects t t :=
  ⟨rfl, rfl, rfl, rfl, fun source hsource => ⟨source, hsource, rfl, rfl, rfl,
    fun hready => .inl hready⟩⟩

variable {t₀ : Tables} {source : SourceRow} {job : Job}

/-- A turn that records more, and leaves the sources. -/
theorem Projects.observe (h : Projects t₀ t) (hjobs : t'.jobs = t.jobs)
    (hplans : t'.plans = t.plans) (hnext : t'.nextSource = t.nextSource)
    (hsources : t'.sources = t.sources) (hobserved : t.observed ⊆ t'.observed) :
    Projects t₀ t' where
  jobs := hjobs.trans h.jobs
  plans := hplans.trans h.plans
  next := hnext.trans h.next
  ids := hsources ▸ h.ids
  sources source' hsource' := by
    obtain ⟨source, hsource, hid, hkind, hjob, hready⟩ := h.sources source' (hsources ▸ hsource')
    refine ⟨source, hsource, hid, hkind, hjob, fun hmark => (hready hmark).imp_right ?_⟩
    rintro ⟨job, hmem, hkind, hid, hterminal, hrecorded⟩
    exact ⟨job, hjobs ▸ hmem, hkind, hid, hterminal, hobserved hrecorded⟩

/-- A source whose outcome is recorded loses its mark. -/
theorem Projects.unready (h : Projects t₀ t) (hids : (t₀.sources.map (·.id)).Nodup)
    (hsource : source ∈ t₀.sources) (hrecorded : Recorded t source) :
    Projects t₀ (t.unready source.id) where
  jobs := h.jobs
  plans := h.plans
  next := h.next
  ids := by
    rw [← h.ids]
    exact Table.map_update fun _ => rfl
  sources source' hsource' := by
    obtain ⟨old, hold, rfl⟩ := Table.mem_update.mp hsource'
    obtain ⟨first, hfirst, hid, hkind, hjob, hready⟩ := h.sources old hold
    split
    · next hcond =>
      -- The source of the id is the one that was projected.
      have hsame : first = source :=
        List.inj_on_of_nodup_map hids hfirst hsource (hid.trans (beq_iff_eq.mp hcond))
      obtain ⟨job, hmem, hjobkind, hjobid, hterminal, hobserved⟩ := hrecorded
      refine ⟨first, hfirst, hid, hkind, hjob, fun _ => .inr ⟨job, hmem, ?_, ?_, hterminal, ?_⟩⟩
      · rw [hjobkind, ← hsame]
        exact hkind
      · rw [hjobid, ← hsame]
        exact hjob
      · rw [← hsame, hid] at hobserved
        exact hobserved
    · exact ⟨first, hfirst, hid, hkind, hjob, hready⟩

/-- The insertion of an event touches the events and the deliveries only. -/
theorem insertEvent_frame (t : Tables) (key eventType : String) (planId : Option String)
    (channels : List ChannelRow) (now : Nat) :
    ∃ events deliveries nextId, t.insertEvent key eventType planId channels now =
      { t with events, deliveries, nextId } := by
  have hrow : ∃ events nextId, t.insertEventRow key eventType planId now =
      { t with events, nextId } := by
    unfold insertEventRow
    split
    · exact ⟨t.events, t.nextId, rfl⟩
    · exact ⟨_, _, rfl⟩
  have hfold : ∀ (channels : List ChannelRow) (eventId : Nat) (t : Tables), ∃ deliveries nextId,
      channels.foldl (fun t channel => t.insertDelivery eventId now channel) t =
        { t with deliveries, nextId } := by
    intro channels eventId
    induction channels with
    | nil => exact fun t => ⟨t.deliveries, t.nextId, rfl⟩
    | cons channel channels ih =>
        intro t
        obtain ⟨deliveries, nextId, hrest⟩ := ih (t.insertDelivery eventId now channel)
        refine ⟨deliveries, nextId, hrest.trans ?_⟩
        unfold insertDelivery
        split <;> rfl
  obtain ⟨events, nextId, heq⟩ := hrow
  unfold insertEvent
  dsimp only
  rw [heq]
  split
  · exact ⟨events, t.deliveries, nextId, rfl⟩
  · obtain ⟨deliveries, nextId', hrest⟩ := hfold channels _ { t with events, nextId }
    exact ⟨events, deliveries, nextId', hrest⟩

theorem record_frame (t : Tables) (source : SourceRow) (job : Job) (channels : List ChannelRow)
    (now : Nat) :
    ∃ events deliveries nextId, t.record source job channels now = { t with
      events, deliveries, nextId
      observed :=
        if t.observed.contains (source.id, job.status) then t.observed
          else t.observed ++ [(source.id, job.status)] } := by
  unfold Tables.record
  dsimp only
  split
  · exact ⟨t.events, t.deliveries, t.nextId, rfl⟩
  · obtain ⟨events, deliveries, nextId, hevent⟩ :=
      t.insertEvent_frame
        (logicalKey job.kind job.id job.status) job.eventType (some job.planId) channels now
    rw [hevent]
    exact ⟨events, deliveries, nextId, rfl⟩

theorem Projects.record (h : Projects t₀ t) (source : SourceRow) (job : Job)
    (channels : List ChannelRow) (now : Nat) :
    Projects t₀ (t.record source job channels now) ∧
    (source.id, job.status) ∈ (t.record source job channels now).observed := by
  obtain ⟨events, deliveries, nextId, hrecord⟩ := t.record_frame source job channels now
  rw [hrecord]
  dsimp only
  split
  · next hcontains =>
      exact ⟨h.observe rfl rfl rfl rfl (List.Subset.refl _), List.contains_iff_mem.mp hcontains⟩
  · exact ⟨h.observe rfl rfl rfl rfl (List.subset_append_left _ _),
      List.mem_append_right _ List.mem_cons_self⟩

theorem jobOf_eq_some (h : t.jobOf source = some job) :
    job ∈ t.jobs ∧ job.kind = source.kind ∧ job.id = source.jobId := by
  have hcond := List.find?_some h
  simp only [Bool.and_eq_true, beq_iff_eq] at hcond
  exact ⟨List.mem_of_find?_eq_some h, hcond.1.1, hcond.1.2⟩

theorem Projects.project (h : Projects t₀ t) (hids : (t₀.sources.map (·.id)).Nodup)
    (hsource : source ∈ t₀.sources) (hprojected : (t₀.jobOf source).any Job.projected = true)
    (hproject : t.project source now = some t') : Projects t₀ t' := by
  have hsame : t.jobOf source = t₀.jobOf source := by rw [jobOf, jobOf, h.jobs, h.plans]
  unfold Tables.project at hproject
  split at hproject
  · cases hproject
    exact h
  next job hjob =>
  obtain ⟨hmem, hkind, hid⟩ := jobOf_eq_some hjob
  have hterminal : job.terminal = true := by
    rw [← hsame, hjob] at hprojected
    exact (Bool.and_eq_true_iff.mp hprojected).1
  dsimp only at hproject
  split at hproject
  · next hcontains =>
    cases hproject
    exact h.unready hids hsource ⟨job, hmem, hkind, hid, hterminal,
      List.contains_iff_mem.mp hcontains⟩
  split at hproject
  · cases hproject
  cases hproject
  obtain ⟨hrecord, hobserved⟩ := h.record source job (t.recipients source job) now
  refine hrecord.unready hids hsource ⟨job, ?_, hkind, hid, hterminal, hobserved⟩
  rw [hrecord.jobs, ← h.jobs]
  exact hmem

theorem Projects.projectAll (h : Projects t₀ t) (hids : (t₀.sources.map (·.id)).Nodup)
    (sources : List SourceRow) (hsources : ∀ source ∈ sources,
      source ∈ t₀.sources ∧ (t₀.jobOf source).any Job.projected = true) :
    Projects t₀ (Tables.projectAll now t sources) := by
  induction sources generalizing t with
  | nil => exact h
  | cons source sources ih =>
      obtain ⟨hsource, hprojected⟩ := hsources source List.mem_cons_self
      unfold Tables.projectAll
      split
      · exact h
      · next hproject =>
        exact ih (h.project hids hsource hprojected hproject) fun other hother =>
          hsources other (List.mem_cons_of_mem _ hother)

theorem reconcile_marks (h : SourcesSound t) (limit now : Nat) :
    Marks t (t.reconcile limit now) := by
  have hprojects : Projects t (t.reconcile limit now) :=
    Projects.refl.projectAll h.ids _ fun source hsource => by
    have hmem := List.mem_mergeSort.mp (List.mem_of_mem_take hsource)
    obtain ⟨hsource, hcond⟩ := List.mem_filter.mp hmem
    exact ⟨hsource, (Bool.and_eq_true_iff.mp hcond).2⟩
  refine ⟨⟨hprojects.ids ▸ h.ids, fun source' hsource' => ?_⟩, Nat.le_of_eq hprojects.next.symm,
    fun source' hsource' => .inr ?_⟩
  · obtain ⟨source, hsource, hid, -⟩ := hprojects.sources source' hsource'
    rw [hprojects.next, ← hid]
    exact h.fresh source hsource
  · obtain ⟨source, hsource, hid, -, -, hready⟩ := hprojects.sources source' hsource'
    exact ⟨source, hsource, hid, hready⟩

theorem test_marks (h : SourcesSound t)
    (channelId now : Nat) (htest : t.test channelId now = .ok t') : Marks t t' := by
  unfold test at htest
  split at htest
  · cases htest
  next channel _ =>
  simp only [bind_eq_ok, refuseIf_eq_ok, pure_eq_ok] at htest
  obtain ⟨-, -, -, -, -, -, rfl⟩ := htest
  obtain ⟨events, deliveries, nextId, hevent⟩ :=
    t.insertEvent_frame ("ne_" ++ toString t.nextId) "notification.test" none [channel] now
  rw [hevent]
  exact h.marks_frame rfl rfl

theorem retry_marks (h : SourcesSound t) (id now : Nat) (hretry : t.retry id now = .ok t') :
    Marks t t' := by
  unfold retry at hretry
  split at hretry
  · cases hretry
  simp only [bind_eq_ok, refuseIf_eq_ok, pure_eq_ok] at hretry
  obtain ⟨-, -, -, -, rfl⟩ := hretry
  exact h.marks_frame rfl rfl

theorem claim_marks (h : SourcesSound t) (now : Nat) : Marks t (t.claim now).1 := by
  unfold claim
  dsimp only
  split
  · exact h.marks_frame rfl rfl
  · split <;> exact h.marks_frame rfl rfl

/-! ### Jobs -/

theorem addJob_marks (h : SourcesSound t) (job : Job) : Marks t (t.addJob job) := by
  unfold addJob
  dsimp only
  split
  · exact h.marks_frame rfl rfl
  split
  · exact h.marks_frame rfl rfl
  · refine ⟨⟨?_, ?_⟩, Nat.le_succ _, fun source' hsource' => ?_⟩
    · rw [List.map_append, List.map_singleton, List.nodup_append]
      refine ⟨h.ids, List.nodup_singleton _, fun id hid other hother => ?_⟩
      obtain ⟨source, hsource, rfl⟩ := List.mem_map.mp hid
      rw [List.mem_singleton.mp hother]
      exact Nat.ne_of_lt (h.fresh source hsource)
    · rw [List.forall_mem_append, List.forall_mem_singleton]
      exact ⟨fun source hsource => Nat.lt_succ_of_lt (h.fresh source hsource), Nat.lt_succ_self _⟩
    · rcases List.mem_append.mp hsource' with hold | hnew
      · exact .inr ⟨source', hold, rfl, fun hready => .inl hready⟩
      · rw [List.mem_singleton.mp hnew]
        exact .inl (Nat.le_refl _)

theorem updateJob_marks (h : SourcesSound t) (kind : SourceKind) (id : String) (set : Job → Job) :
    Marks t (t.updateJob kind id set) := by
  unfold updateJob
  split
  · exact h.marks_frame rfl rfl
  dsimp only
  split
  · refine ⟨⟨Table.nodup_update (fun _ => rfl) h.ids, fun source' hsource' => ?_⟩, Nat.le_refl _,
      fun source' hsource' => .inr ?_⟩
    · obtain ⟨source, hsource, rfl⟩ := Table.mem_update.mp hsource'
      split <;> exact h.fresh source hsource
    · obtain ⟨source, hsource, rfl⟩ := Table.mem_update.mp hsource'
      refine ⟨source, hsource, by split <;> rfl, fun hready => .inl ?_⟩
      split
      · rfl
      · exact hready
  · exact h.marks_frame rfl rfl

theorem addJob_good (h : Sound t) (job : Job) : Good t (t.addJob job) := by
  unfold addJob
  dsimp only
  split
  · exact h.good
  · split <;> exact h.frame rfl rfl (Nat.le_refl _)

theorem updateJob_good (h : Sound t) (kind : SourceKind) (id : String) (set : Job → Job) :
    Good t (t.updateJob kind id set) := by
  unfold updateJob
  split <;> exact h.frame rfl rfl (Nat.le_refl _)

theorem removeJob_marks (h : SourcesSound t) (kind : SourceKind) (id : String) :
    Marks t (t.removeJob kind id) :=
  ⟨⟨h.ids.sublist (List.filter_sublist.map _),
    fun source hsource => h.fresh source (List.mem_of_mem_filter hsource)⟩,
    Nat.le_refl _, fun source' hsource' => .inr ⟨source', List.mem_of_mem_filter hsource', rfl,
      fun hready => .inl hready⟩⟩

/-! ## Channels and subscriptions -/

/-- An operation on tables that no delivery and no source is in. -/
structure Aside (t t' : Tables) : Prop where
  deliveries : t'.deliveries = t.deliveries
  events : t'.events = t.events
  next : t.nextId ≤ t'.nextId
  sources : t'.sources = t.sources
  nextSource : t'.nextSource = t.nextSource

theorem saveChannel_aside {value : ChannelInput} {channelId : Option Nat}
    (h : t.saveChannel value channelId now = .ok t') :
    Aside t t' := by
  unfold saveChannel at h
  simp only [bind_eq_ok, refuseIf_eq_ok] at h
  obtain ⟨-, -, -, -, -, -, -, -, h⟩ := h
  split at h
  · cases h
    exact ⟨rfl, rfl, Nat.le_refl _, rfl, rfl⟩
  · cases h
    exact ⟨rfl, rfl, Nat.le_succ _, rfl, rfl⟩

theorem deleteChannel_aside {channelId : Nat} (h : t.deleteChannel channelId = .ok t') :
    Aside t t' := by
  unfold deleteChannel at h
  simp only [bind_eq_ok, refuseIf_eq_ok, pure_eq_ok] at h
  obtain ⟨-, -, rfl⟩ := h
  exact ⟨rfl, rfl, Nat.le_refl _, rfl, rfl⟩

theorem saveSubscription_aside {planId : String} {value : SubscriptionInput}
    (h : t.saveSubscription planId value = .ok t') :
    Aside t t' := by
  unfold saveSubscription at h
  simp only [bind_eq_ok, refuseIf_eq_ok, pure_eq_ok] at h
  obtain ⟨-, -, -, -, rfl⟩ := h
  exact ⟨rfl, rfl, Nat.le_refl _, rfl, rfl⟩

/-! ## Claims -/

theorem due_spec {row : DeliveryRow} (h : t.due now = some row) :
    row ∈ t.deliveries ∧ row.status = .pending := by
  have hmem := List.mem_mergeSort.mp (List.mem_of_head? h)
  obtain ⟨hrow, hcond⟩ := List.mem_filter.mp hmem
  exact ⟨hrow, beq_iff_eq.mp (Bool.and_eq_true_iff.mp (Bool.and_eq_true_iff.mp hcond).1).1⟩

theorem delivery_spec {id : Nat} {g : Delivery} (h : t.delivery id = some g) :
    g.row ∈ t.deliveries ∧ g.row.id = id := by
  unfold Tables.delivery at h
  obtain ⟨row, hrow, hview⟩ := Option.bind_eq_some_iff.mp h
  obtain ⟨event, -, rfl⟩ := Option.map_eq_some_iff.mp hview
  have hid := List.find?_some hrow
  exact ⟨List.mem_of_find?_eq_some hrow, beq_iff_eq.mp hid⟩

/-- What is handed out is a row of the table, and was one that had not succeeded. -/
theorem claim_grant {g : Delivery} (h : Sound t) (hclaim : (t.claim now).2 = some g) :
    g.row ∈ (t.claim now).1.deliveries ∧ ∃ row ∈ t.deliveries,
      row.id = g.row.id ∧ row.status ≠ .succeeded := by
  have hrecovered := recover_good h now
  unfold claim at hclaim ⊢
  dsimp only at hclaim ⊢
  split at hclaim
  · cases hclaim
  next hroom =>
  split at hclaim
  · cases hclaim
  next row hdue =>
  rw [if_neg hroom]
  obtain ⟨hrow, hpending⟩ := due_spec hdue
  obtain ⟨hmem, hid⟩ := delivery_spec hclaim
  refine ⟨hmem, ?_⟩
  rcases hrecovered.evolves.rows row hrow with ⟨old, hold, hmoves⟩ | hfresh
  · refine ⟨old, hold, hmoves.id.symm.trans hid.symm, fun hfinal => ?_⟩
    rw [hmoves.final hfinal, hfinal] at hpending
    cases hpending
  · exact absurd (hrecovered.sound.fresh row hrow) (Nat.not_lt.mpr hfresh)

/-- At most one delivery of the event with a key goes to a channel. -/
theorem once_of_key (h : Sound t) (key : String) (channelId : Nat) :
    (t.deliveries.filter fun row => row.channelId == channelId &&
      t.events.any fun event => event.id == row.eventId && event.logicalKey == key).length ≤ 1 := by
  have hnodup := h.once.sublist ((List.filter_sublist (p := fun row : DeliveryRow =>
    row.channelId == channelId &&
      t.events.any fun event => event.id == row.eventId && event.logicalKey == key)).map _)
  cases hevent : t.events.find? (·.logicalKey == key) with
  | none =>
      have hnone := List.find?_eq_none.mp hevent
      have hnil : (t.deliveries.filter fun row => row.channelId == channelId &&
          t.events.any fun event => event.id == row.eventId && event.logicalKey == key) = [] := by
        refine List.filter_eq_nil_iff.mpr fun row _ hcond => ?_
        obtain ⟨event, hmem, hkey⟩ := List.any_eq_true.mp (Bool.and_eq_true_iff.mp hcond).2
        exact hnone event hmem (Bool.and_eq_true_iff.mp hkey).2
      rw [hnil]
      exact Nat.zero_le 1
  | some event =>
      have hkey := List.find?_some hevent
      have hmem := List.mem_of_find?_eq_some hevent
      -- All of them are the delivery of this event to this channel.
      have hall : ∀ pair ∈ (t.deliveries.filter fun row => row.channelId == channelId &&
          t.events.any fun event => event.id == row.eventId && event.logicalKey == key).map
            fun row => (row.eventId, row.channelId), pair = (event.id, channelId) := by
        intro pair hpair
        obtain ⟨row, hrow, rfl⟩ := List.mem_map.mp hpair
        obtain ⟨hchannel, hany⟩ := Bool.and_eq_true_iff.mp (List.mem_filter.mp hrow).2
        obtain ⟨other, hother, hcond⟩ := List.any_eq_true.mp hany
        obtain ⟨hid, hsame⟩ := Bool.and_eq_true_iff.mp hcond
        have heq : other = event :=
          List.inj_on_of_nodup_map h.keys hother hmem
            ((beq_iff_eq.mp hsame).trans (beq_iff_eq.mp hkey).symm)
        rw [← beq_iff_eq.mp hid, heq, beq_iff_eq.mp hchannel]
      rw [List.eq_replicate_of_mem hall, List.nodup_replicate, List.length_map] at hnodup
      exact hnodup

end Tables

namespace System

variable {s s' s'' : System} {k : Nat}

/-! ## Steps -/

structure Inv (s : System) : Prop where
  tables : s.tables.Sound
  sources : s.tables.SourcesSound
  grants : ∀ g ∈ s.granted, g.row.id < s.tables.nextId ∧ (∀ o, g.row.leaseOwner = some o →
    o < s.tables.nextId) ∧
    ∀ row ∈ s.tables.deliveries, g.row.owns row = true →
      row.attemptCount = g.row.attemptCount ∧ row.cycleAttempts = g.row.cycleAttempts

/-- What a step, or a run, does: rows move, and what is handed out had not succeeded. -/
structure Follows (s s' : System) : Prop where
  evolves : s.tables.Evolves s'.tables
  grants : ∃ new, s'.granted = s.granted ++ new ∧ ∀ g ∈ new,
    s.tables.nextId ≤ g.row.id ∨ ∃ row ∈ s.tables.deliveries,
      row.id = g.row.id ∧ row.status ≠ .succeeded

theorem Follows.trans (h : Follows s s') (h' : Follows s' s'') : Follows s s'' where
  evolves := h.evolves.trans h'.evolves
  grants := by
    obtain ⟨new, hnew, hrows⟩ := h.grants
    obtain ⟨new', hnew', hrows'⟩ := h'.grants
    refine ⟨new ++ new', by rw [hnew', hnew, List.append_assoc], fun g hg => ?_⟩
    rcases List.mem_append.mp hg with hg | hg
    · exact hrows g hg
    rcases hrows' g hg with hfresh | ⟨row', hrow', hid, hstatus⟩
    · exact .inl (Nat.le_trans h.evolves.next hfresh)
    rcases h.evolves.rows row' hrow' with ⟨row, hrow, hmoves⟩ | hfresh
    · exact .inr ⟨row, hrow, hmoves.id.symm.trans hid,
        fun hfinal => hstatus (hmoves.final hfinal ▸ hfinal)⟩
    · exact .inl (hid ▸ hfresh)

/-- All there is to say about one step. -/
structure Steps (s s' : System) : Prop where
  inv : Inv s'
  follows : Follows s s'
  marks : s.tables.Marks s'.tables

theorem Inv.tables_step (h : Inv s) {t : Tables} (hgood : s.tables.Good t)
    (hmarks : s.tables.Marks t) :
    Steps s { s with tables := t } := by
  refine ⟨⟨hgood.sound, hmarks.sound, fun g hg => ?_⟩,
    ⟨hgood.evolves, [], (List.append_nil _).symm, fun _ hg => absurd hg List.not_mem_nil⟩, hmarks⟩
  obtain ⟨hid, howner, hcounters⟩ := h.grants g hg
  refine ⟨Nat.lt_of_lt_of_le hid hgood.evolves.next,
    fun o ho => Nat.lt_of_lt_of_le (howner o ho) hgood.evolves.next,
    fun row' hrow' howns => ?_⟩
  obtain ⟨hsame, hstatus, o, ho, hgo⟩ := DeliveryRow.owns_eq_true.mp howns
  rcases hgood.evolves.rows row' hrow' with ⟨row, hrow, hmoves⟩ | hfresh
  · obtain ⟨hsending, hleased, hattempts, hcycle⟩ := hmoves.lease o (howner o hgo) hstatus ho
    have hold : g.row.owns row = true :=
      DeliveryRow.owns_eq_true.mpr ⟨hmoves.id.symm.trans hsame, hsending, o, hleased, hgo⟩
    exact ⟨hattempts.trans (hcounters row hrow hold).1, hcycle.trans (hcounters row hrow hold).2⟩
  · exact absurd hid (Nat.not_lt.mpr (hsame ▸ hfresh))

theorem Inv.commit (h : Inv s) {result : Except AppError Tables}
    (hok : ∀ t, result = .ok t → s.tables.Good t ∧ s.tables.Marks t) :
    Steps s (s.commit result) := by
  cases result with
  | ok t => exact h.tables_step (hok t rfl).1 (hok t rfl).2
  | error _ => exact h.tables_step h.tables.good (h.sources.marks_frame rfl rfl)

theorem Inv.aside (h : Inv s) {result : Except AppError Tables}
    (hok : ∀ t, result = .ok t → s.tables.Aside t) :
    Steps s (s.commit result) :=
  h.commit fun t ht =>
    have haside := hok t ht
    ⟨h.tables.frame haside.deliveries haside.events haside.next,
      h.sources.marks_frame haside.sources haside.nextSource⟩

theorem Inv.claim (h : Inv s) (now : Nat) : Steps s (s.step (.claim now)) := by
  have hgood := Tables.claim_good h.tables now
  obtain ⟨hinv, hfollows, hmarks⟩ := h.tables_step hgood (Tables.claim_marks h.sources now)
  refine ⟨⟨hinv.tables, hinv.sources, fun g hg => ?_⟩,
    ⟨hfollows.evolves, _, rfl, fun g hg => ?_⟩, hmarks⟩
  · rcases List.mem_append.mp hg with hold | hnew
    · exact hinv.grants g hold
    · -- The delivery that is handed out is a row of the table.
      obtain ⟨hmem, -⟩ := Tables.claim_grant h.tables (Option.mem_toList.mp hnew)
      refine ⟨hgood.sound.fresh g.row hmem, hgood.sound.owners g.row hmem, fun row hrow howns => ?_⟩
      have hsame : row = g.row :=
        List.inj_on_of_nodup_map hgood.sound.ids hrow hmem (DeliveryRow.owns_eq_true.mp howns).1
      rw [hsame]
      exact ⟨rfl, rfl⟩
  · exact .inr (Tables.claim_grant h.tables (Option.mem_toList.mp hg)).2

theorem Inv.step (h : Inv s) (l : Label) : Steps s (s.step l) := by
  cases l with
  | saveChannel value channelId now => exact h.aside fun _ => Tables.saveChannel_aside
  | deleteChannel channelId => exact h.aside fun _ => Tables.deleteChannel_aside
  | saveSubscription planId value => exact h.aside fun _ => Tables.saveSubscription_aside
  | reconcile limit now =>
      exact h.tables_step (Tables.projectAll_good h.tables now _)
        (Tables.reconcile_marks h.sources limit now)
  | test channelId now =>
      exact h.commit fun t ht => ⟨Tables.test_good h.tables channelId now ht,
        Tables.test_marks h.sources channelId now ht⟩
  | claim now => exact h.claim now
  | finish k result now =>
      unfold System.step System.finish
      dsimp only
      split
      · next g hg =>
        exact h.tables_step (Tables.finish_good h.tables g result now
          (h.grants g (List.mem_of_getElem? hg)).2.2)
          (h.sources.marks_frame rfl rfl)
      · exact h.tables_step h.tables.good (h.sources.marks_frame rfl rfl)
  | retry deliveryId now =>
      exact h.commit fun t ht => ⟨Tables.retry_good h.tables deliveryId now ht,
        Tables.retry_marks h.sources deliveryId now ht⟩
  | maintenance now =>
      exact h.tables_step (Tables.maintenance_good h.tables now) (h.sources.marks_frame rfl rfl)
  | addJob job =>
      exact h.tables_step (Tables.addJob_good h.tables job) (Tables.addJob_marks h.sources job)
  | updateJob kind id set =>
      exact h.tables_step (Tables.updateJob_good h.tables kind id set)
        (Tables.updateJob_marks h.sources kind id set)
  | removeJob kind id =>
      exact h.tables_step (h.tables.frame rfl rfl (Nat.le_refl _))
        (Tables.removeJob_marks h.sources kind id)
  | addPlan id =>
      unfold System.step Tables.addPlan
      dsimp only
      split <;>
        exact h.tables_step (h.tables.frame rfl rfl (Nat.le_refl _)) (h.sources.marks_frame rfl rfl)
  | removePlan id =>
      exact h.tables_step (h.tables.frame rfl rfl (Nat.le_refl _)) (h.sources.marks_frame rfl rfl)

theorem inv_initial : Inv {} where
  tables :=
    { ids := List.nodup_nil
      fresh := fun _ hrow => absurd hrow List.not_mem_nil
      owners := fun _ hrow => absurd hrow List.not_mem_nil
      rows := fun _ hrow => absurd hrow List.not_mem_nil
      sending := Nat.zero_le 2
      pending := Nat.zero_le maxPending
      once := List.nodup_nil
      keys := List.nodup_nil }
  sources := ⟨List.nodup_nil, fun _ hsource => absurd hsource List.not_mem_nil⟩
  grants _ hg := absurd hg List.not_mem_nil

theorem Inv.run (h : Inv s) (labels : List Label) :
    Inv (labels.foldl System.step s) ∧ Follows s (labels.foldl System.step s) := by
  induction labels generalizing s with
  | nil => exact ⟨h, (h.tables_step h.tables.good (h.sources.marks_frame rfl rfl)).follows⟩
  | cons l labels ih =>
      have hstep := h.step l
      exact ⟨(ih hstep.inv).1, hstep.follows.trans (ih hstep.inv).2⟩

/-! ## What follows over a run -/

/-- A row that succeeded stays as it is, as long as it is kept, and is not handed out again. -/
theorem Follows.final (h : Follows s s') (hinv : Inv s) {row : DeliveryRow}
    (hrow : row ∈ s.tables.deliveries) (hstatus : row.status = .succeeded) :
    (∀ row' ∈ s'.tables.deliveries, row'.id = row.id → row' = row) ∧
      ∀ g ∈ s'.granted.drop s.granted.length, g.row.id ≠ row.id := by
  have hfresh := hinv.tables.fresh row hrow
  have hunique : ∀ other ∈ s.tables.deliveries, other.id = row.id → other = row :=
    fun other hother hid => List.inj_on_of_nodup_map hinv.tables.ids hother hrow hid
  refine ⟨fun row' hrow' hid => ?_, fun g hg hid => ?_⟩
  · rcases h.evolves.rows row' hrow' with ⟨old, hold, hmoves⟩ | hnew
    · have hsame := hunique old hold (hmoves.id.symm.trans hid)
      rw [hmoves.final (hsame ▸ hstatus), hsame]
    · exact absurd hfresh (Nat.not_lt.mpr (hid ▸ hnew))
  · obtain ⟨new, hgranted, hrows⟩ := h.grants
    rw [hgranted, List.drop_left] at hg
    rcases hrows g hg with hnew | ⟨old, hold, hsame, hopen⟩
    · exact absurd hfresh (Nat.not_lt.mpr (hid ▸ hnew))
    · exact hopen (hunique old hold (hsame.trans hid) ▸ hstatus)

/-- A lease that has ended does not come back: the delivery owns no row any more. -/
theorem Follows.lapsed (h : Follows s s') (hinv : Inv s) {g : Tables.Delivery} (hg : g ∈ s.granted)
    (hlapsed : ∀ row ∈ s.tables.deliveries, g.row.owns row = false) :
    ∀ row' ∈ s'.tables.deliveries, g.row.owns row' = false := by
  obtain ⟨hid, howner, -⟩ := hinv.grants g hg
  intro row' hrow'
  by_contra howns
  obtain ⟨hsame, hstatus, o, ho, hgo⟩ := DeliveryRow.owns_eq_true.mp (Bool.not_eq_false _ ▸ howns)
  rcases h.evolves.rows row' hrow' with ⟨row, hrow, hmoves⟩ | hnew
  · obtain ⟨hsending, hleased, -, -⟩ := hmoves.lease o (howner o hgo) hstatus ho
    have hold : g.row.owns row = true :=
      DeliveryRow.owns_eq_true.mpr ⟨hmoves.id.symm.trans hsame, hsending, o, hleased, hgo⟩
    rw [hlapsed row hrow] at hold
    cases hold
  · exact absurd hid (Nat.not_lt.mpr (hsame ▸ hnew))

theorem finish_of_lapsed {g : Tables.Delivery} (hg : s.granted[k]? = some g)
    (hlapsed : ∀ row ∈ s.tables.deliveries, g.row.owns row = false) (result : DeliveryResult)
    (now : Nat) :
    s.step (.finish k result now) = s := by
  unfold System.step System.finish
  dsimp only
  rw [hg]
  dsimp only [Tables.finish]
  rw [Table.update_eq_self hlapsed]

/-- A source that loses its mark is one whose outcome was recorded. -/
theorem recorded_of_unready (h : Inv s) (hmarks : s.tables.Marks s'.tables)
    {source source' : SourceRow} (hsource : source ∈ s.tables.sources)
    (hready : source.ready = true) (hsource' : source' ∈ s'.tables.sources)
    (hid : source'.id = source.id) (hlost : source'.ready = false) :
    s'.tables.Recorded source' := by
  rcases hmarks.sources source' hsource' with hnew | ⟨old, hold, hsame, hmark⟩
  · exact absurd (h.sources.fresh source hsource) (Nat.not_lt.mpr (hid ▸ hnew))
  · have heq : old = source := List.inj_on_of_nodup_map h.sources.ids hold hsource (hsame.trans hid)
    rcases hmark (heq ▸ hready) with hstill | hrecorded
    · rw [hlost] at hstill
      cases hstill
    · exact hrecorded

/-- Of every state that operations and the rest of the program lead to: two deliveries at most
are sent at a time, `maxPending` are open, the counters are within their limits and a delivery
that waits can be claimed; one that succeeded stays as it is and is not handed out again; a
finish whose lease has ended changes nothing, then or later; an outcome of a job goes once to a
channel; and a source loses its mark only when the outcome of its job is recorded. -/
theorem outbox_limits (labels later : List Label) (l : Label) :
    let s := run labels
    let s' := later.foldl step s
    s.tables.sendingCount ≤ 2 ∧ s.tables.pendingCount ≤ maxPending ∧
      (∀ row ∈ s.tables.deliveries, row.attemptCount ≤ 20 ∧ row.cycleAttempts ≤ 5 ∧
        row.manualRetries ≤ 3 ∧
        (row.status = .pending → row.cycleAttempts < 5 ∧ row.attemptCount < 20)) ∧
      (∀ row ∈ s.tables.deliveries, row.status = .succeeded →
        (∀ row' ∈ s'.tables.deliveries, row'.id = row.id → row' = row) ∧
          ∀ g ∈ s'.granted.drop s.granted.length, g.row.id ≠ row.id) ∧
      (∀ (k : Nat) (g : Tables.Delivery), s.granted[k]? = some g →
        (∀ row ∈ s.tables.deliveries, g.row.owns row = false) →
        ∀ result now, s'.step (.finish k result now) = s') ∧
      (∀ kind jobId status channelId, (s.tables.deliveries.filter fun row =>
        row.channelId == channelId &&
        s.tables.events.any fun event =>
          event.id == row.eventId && event.logicalKey == logicalKey kind jobId status).length ≤ 1) ∧
      (∀ source ∈ s.tables.sources, source.ready = true →
        ∀ source' ∈ (s.step l).tables.sources, source'.id = source.id →
        source'.ready = false → (s.step l).tables.Recorded source') := by
  intro s s'
  have hinv : Inv s := (inv_initial.run labels).1
  have hfollows : Follows s s' := (hinv.run later).2
  refine ⟨hinv.tables.sending, hinv.tables.pending, fun row hrow => ?_,
    fun row hrow hstatus => hfollows.final hinv hrow hstatus,
    fun k g hg hlapsed result now => ?_,
    fun kind jobId status channelId => Tables.once_of_key hinv.tables _ channelId,
    fun source hsource hready source' hsource' hid hlost =>
      recorded_of_unready hinv (hinv.step l).marks hsource hready hsource' hid hlost⟩
  · have hsound := hinv.tables.rows row hrow
    exact ⟨hsound.attempts, hsound.cycle, hsound.manual, hsound.claimable⟩
  · obtain ⟨new, hgranted, -⟩ := hfollows.grants
    have hlater : s'.granted[k]? = some g := by
      rw [hgranted, List.getElem?_append_left (List.getElem?_eq_some_iff.mp hg).1, hg]
    exact finish_of_lapsed hlater
      (hfollows.lapsed hinv (List.mem_of_getElem? hg) hlapsed) result now

end System

end Pluton.Notifications
