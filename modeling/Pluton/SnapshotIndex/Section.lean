-- SUMMARY: The section of the cache of snapshot indexes keeps the invariant.
import Pluton.SnapshotIndex.Invariant

/-!
# The section

One action runs at a time. It starts from `Running`, and every way in which it waits or
ends gives `Inv` back.
-/
namespace Pluton.SnapshotIndex

variable {limits : Limits} {R D : Nat → Prop} {s : Cache} {i e : Nat}

/-! ## The section -/

theorem Turn.Ready.frame {s' : Cache} {turn : Turn} (h : turn.Ready limits s)
    (hbuilds : s'.builds ≤ s.builds) (hentries : s'.entries = s.entries)
    (hinit : s.initialized = true → s'.initialized = true) : turn.Ready limits s' := by
  have hnext : ∀ next : Next, next.Ready limits s → next.Ready limits s' := by
    intro next hready
    cases next with
    | initializeRoot => exact ⟨hbuilds.trans_lt hready.1, hentries ▸ hready.2⟩
    | measure => exact ⟨hbuilds.trans_lt hready.1, hentries ▸ hready.2.1, hinit hready.2.2⟩
    | expire | expireAll | expired | admitEntry => trivial
  cases turn with
  | next after => exact hnext after h
  | removing f after =>
      cases after with
      | initializeRoot =>
          refine ⟨hbuilds.trans_lt h.1, ?_⟩
          unfold Cache.cached
          rw [hentries]
          exact h.2
      | measure => exact hnext .measure h
      | expire | expireAll | expired | admitEntry => trivial
  | initializing => exact hnext .initializeRoot h
  | measuring => exact hnext .measure h

theorem victim_cached (h : s.victim = some e) : s.cached e = true := by
  have hmem := (List.mem_filter.mp (List.argmin_mem h)).1
  obtain ⟨held, hheld, heq⟩ := List.mem_map.mp hmem
  exact List.any_eq_true.mpr ⟨held, hheld, beq_iff_eq.mpr heq⟩

theorem get_spec {key : String} {entry : Entry} (h : s.get key = some (e, entry)) :
    s.heap[e]? = some entry ∧ s.cached e = true := by
  unfold Cache.get at h
  split at h
  · cases h
  · next held hfind =>
      obtain ⟨row, hrow, heq⟩ := Option.map_eq_some_iff.mp h
      cases heq
      exact ⟨hrow, List.any_eq_true.mpr ⟨held, List.mem_of_find?_eq_some hfind, beq_self_eq_true _⟩⟩

namespace Running

theorem turn (turn : Turn) (h : Running limits (fun f => turn.removes f) i s)
    (hready : turn.Ready limits s) :
    Inv limits (s.turn i turn) where
  core := by
    have hcore : Core limits (s.turn i turn).removing (s.turn i turn).removing s := by
      refine h.core.weaken (fun f hR => .inl ⟨_, rfl, hR⟩) fun f hremoving => ?_
      rcases hremoving with ⟨action, haction, hremoves⟩ | ⟨rest, hmem⟩
      · cases haction
        exact hremoves
      · cases h.drained _ hmem
    exact hcore.frame rfl rfl rfl rfl rfl
  distinct := h.distinct
  admitting := h.admitting
  ready action haction := by
    cases haction
    exact hready.frame (Nat.le_refl _) rfl id
  drained closing hclosing := .inl (h.drained closing hclosing)
  closed := h.closed

theorem ends {s' : Cache} {place : Place} (h : Running limits Untouched i s)
    (hcore : Core limits Untouched Untouched s') (hexclusive : s'.exclusive = none)
    (hadmission : s'.admission = s.admission) (hcalls : s'.calls = (s.setPlace i place).calls)
    (hclosings : s'.closings = s.closings) (hclosed : s'.closed = s.closed) :
    Inv limits s' := by
  have hqueued : s'.queued = s.admission := by simp [Cache.queued, hexclusive, hadmission]
  have hdistinct := List.nodup_cons.mp h.distinct
  exact {
    core := hcore.weaken (fun _ => False.elim) fun f hremoving => by
      rcases hremoving with ⟨action, haction, -⟩ | ⟨rest, hmem⟩
      · rw [hexclusive] at haction
        cases haction
      · rw [hclosings] at hmem
        cases h.drained _ hmem
    distinct := hqueued ▸ hdistinct.2
    admitting := fun j hj => by
      rw [hqueued] at hj
      obtain ⟨call, hcall, hplace⟩ := h.admitting j (List.mem_cons_of_mem i hj)
      have hne : i ≠ j := fun heq => hdistinct.1 (heq ▸ hj)
      refine ⟨call, ?_, hplace⟩
      rw [hcalls]
      exact (List.getElem?_modify_ne _ _ hne).trans hcall
    ready := fun action haction => by
      rw [hexclusive] at haction
      cases haction
    drained := fun closing hclosing => .inl (h.drained closing (hclosings ▸ hclosing))
    closed := fun hne => hclosed.trans (h.closed (hclosings ▸ hne)) }

theorem finish {result : Result} (h : Running limits Untouched i s) :
    Inv limits (s.finish i (.ended result)) := by
  obtain ⟨call, hcall, hplace⟩ := h.admitting i List.mem_cons_self
  have hcore : Core limits Untouched Untouched (s.setPlace i (.ended result)) :=
    h.core.setPlace hcall (fun f => by rw [hplace]; rfl) fun f hreads => by
      rcases hreads with h | ⟨h, -⟩ <;> cases h
  exact h.ends (hcore.frame rfl rfl rfl rfl rfl) rfl rfl rfl rfl rfl

theorem refuse {error : AppError} (h : Running limits Untouched i s) :
    Inv limits (s.refuse i error) := h.finish

theorem lease {entry : Entry} {set : Entry → Entry} (h : Running limits Untouched i s)
    (hentry : s.heap[e]? = some entry) (hgone : entry.gone = false)
    (hready : ∀ call : Call, s.calls[i]? = some call → call.request.isReady = true →
      entry.build = .built)
    (hset : ∀ entry : Entry, { entry with readers := entry.readers + 1 }.Same (set entry)) :
    Inv limits ((s.amend e set).finish i (.leased e)) := by
  obtain ⟨call, hcall, hplace⟩ := h.admitting i List.mem_cons_self
  have hcore :=
    h.core.lease hcall (fun f => by rw [hplace]; rfl) hentry hgone (hready call hcall) hset
  exact h.ends (hcore.frame rfl rfl rfl rfl rfl) rfl rfl rfl rfl rfl

theorem frame {R' : Nat → Prop} {s' : Cache} (h : Running limits R i s)
    (hcore : Core limits R' R' s') (hadmission : s'.admission = s.admission)
    (hcalls : s'.calls = s.calls) (hclosings : s'.closings = s.closings)
    (hclosed : s'.closed = s.closed) : Running limits R' i s' where
  core := hcore
  distinct := hadmission ▸ h.distinct
  admitting := by rw [hadmission, hcalls]; exact h.admitting
  drained := by rw [hclosings]; exact h.drained
  closed := by rw [hclosings, hclosed]; exact h.closed

theorem goOn {next : Next} {removal : Cache × Removal} (h : Running limits R i s)
    (hremoves : Removes limits Untouched e s removal)
    (hready : (Turn.removing e next).Ready limits s) :
    Inv limits (Cache.goOn i e next removal) := by
  obtain ⟨s', removal⟩ := removal
  have hrunning :=
    h.frame hremoves.core hremoves.admission hremoves.calls hremoves.closings hremoves.closed
  cases removal with
  | waiting =>
      refine turn (.removing e next) ?_ ?_
      · exact hrunning.frame (hrunning.core.weaken (fun f hR =>
          hR.elim False.elim fun hboth => hboth.1.symm)
          fun f hremoving => .inr ⟨hremoving.symm, rfl⟩) rfl rfl rfl rfl
      · exact hready.frame hremoves.builds.le (hremoves.waiting rfl) (hremoves.initialized ▸ id)
  | done =>
      refine turn (.next next) ?_ ?_
      · exact hrunning.frame (hrunning.core.weaken (fun f hR =>
          hR.elim False.elim fun hboth => nomatch hboth.2)
          fun f hremoving => hremoving.elim) rfl rfl rfl rfl
      · -- The removal has made room.
        have hbuilds : s'.builds ≤ s.builds := hremoves.builds.le
        have hlength : s'.entries.length ≤ s.entries.length := hremoves.length
        cases next with
        | initializeRoot =>
            exact ⟨hbuilds.trans_lt hready.1, (hremoves.done rfl hready.2).trans_le h.core.size⟩
        | measure =>
            exact ⟨hbuilds.trans_lt hready.1, hlength.trans_lt hready.2.1,
              hremoves.initialized.trans hready.2.2⟩
        | expire | expireAll | expired | admitEntry => trivial
  | failed error =>
      exact (hrunning.frame (hrunning.core.weaken (fun f hR =>
        hR.elim False.elim fun hboth => nomatch hboth.2)
        fun f hremoving => hremoving.elim) rfl rfl rfl rfl).refuse

theorem expire {closes : Bool} (rest : List Nat) (h : Running limits Untouched i s) :
    Inv limits (s.expire limits i closes rest) := by
  induction rest with
  | nil => exact h.turn (.next .expired) trivial
  | cons e rest ih =>
      rw [Cache.expire]
      split
      · exact h.goOn (remove_spec h.core closes) trivial
      · exact ih

theorem admitEntry {closes : Bool} (h : Running limits Untouched i s) :
    Inv limits (s.admitEntry limits i closes) := by
  unfold Cache.admitEntry
  split
  · exact h.refuse
  · next hbuilds =>
      split
      · split
        · exact h.refuse
        · next e hvictim =>
            exact h.goOn (remove_spec h.core closes) ⟨Nat.not_le.mp hbuilds, victim_cached hvictim⟩
      · next hsize =>
          exact h.turn .initializing ⟨Nat.not_le.mp hbuilds, Nat.not_le.mp hsize⟩

theorem grant {entry : Entry} {request : Request} (h : Running limits Untouched i s)
    (hentry : s.heap[e]? = some entry) (hgone : entry.gone = false)
    (hrequest : ∀ call : Call, s.calls[i]? = some call → call.request.isReady = false) :
    Inv limits (s.grant i e request) := by
  have hcore : Core limits Untouched Untouched
      (s.amend e fun entry =>
        { entry with background := entry.background || request.background }) :=
    h.core.amend_same fun _ => ⟨rfl, rfl, rfl, rfl, rfl, rfl, rfl, rfl⟩
  have hrunning := h.frame (hcore.touch (e := e)) rfl rfl rfl rfl
  unfold Cache.grant
  dsimp only
  split
  · refine hrunning.lease (Cache.getElem?_amend (Cache.getElem?_amend hentry)) ?_
      (fun call hcall hready => ?_)
      fun _ => ⟨rfl, rfl, rfl, rfl, rfl, rfl, rfl, rfl⟩
    · rw [if_pos rfl, if_pos rfl]
      exact hgone
    · rw [hrequest call hcall] at hready
      cases hready
  · exact hrunning.finish

/-- An entry that the map has, and that has not failed, is not gone. -/
theorem not_gone {entry : Entry} (h : Running limits Untouched i s)
    (hentry : s.heap[e]? = some entry) (hcached : s.cached e = true) (herror : entry.error = none) :
    entry.gone = false := by
  cases hgone : entry.gone with
  | false => rfl
  | true =>
      rcases h.core.gone e entry hentry hgone with hsome | hfalse | huncached
      · rw [herror] at hsome; cases hsome
      · exact hfalse.elim
      · rw [hcached] at huncached; cases huncached

theorem find {key : String} {request : Request} {closes : Bool} (h : Running limits Untouched i s)
    (hrequest : ∀ call : Call, s.calls[i]? = some call → call.request.isReady = false) :
    Inv limits (s.find limits i key request closes) := by
  unfold Cache.find
  split
  · exact h.admitEntry
  · next e entry hget =>
      obtain ⟨hentry, hcached⟩ := get_spec hget
      split
      · exact h.goOn (remove_spec h.core closes) trivial
      · split
        · exact h.refuse
        · next herror => exact h.grant hentry (h.not_gone hentry hcached herror) hrequest

theorem leaseReady {key generation : String} (h : Running limits Untouched i s) :
    Inv limits (s.leaseReady i key generation) := by
  unfold Cache.leaseReady
  split
  · exact h.refuse
  · next e entry hget =>
      obtain ⟨hentry, -⟩ := get_spec hget
      split
      · next hready =>
          have hindex : entry.index = true := (Bool.and_eq_true_iff.mp hready).1
          have hgone : entry.gone = false := by
            cases hgone : entry.gone with
            | false => rfl
            | true =>
                rw [((h.core.fits e entry hentry).gone hgone).2] at hindex
                cases hindex
          have hrunning : Running limits Untouched i { s with sequence := s.sequence + 1 } :=
            h.frame (h.core.frame rfl rfl rfl rfl rfl) rfl rfl rfl rfl
          exact hrunning.lease hentry hgone (fun _ _ _ => (h.core.fits e entry hentry).built hindex)
            fun _ => ⟨rfl, rfl, rfl, rfl, rfl, rfl, rfl, rfl⟩
      · exact h.refuse

end Running

/-! ## New entries -/

theorem length_put_le (key : String) : (s.put key e).entries.length ≤ s.entries.length + 1 := by
  unfold Cache.put
  split
  · simp
  · simp

theorem mem_put (key : String) (held : String × Nat) (h : held ∈ (s.put key e).entries) :
    held ∈ s.entries ∨ held = (key, e) := by
  unfold Cache.put at h
  split at h
  · obtain ⟨old, hold, heq⟩ := List.mem_map.mp h
    split at heq
    · exact .inr heq.symm
    · exact .inl (heq ▸ hold)
  · rcases List.mem_append.mp h with hold | hnew
    · exact .inl hold
    · exact .inr (List.mem_singleton.mp hnew)

theorem keys_put (key : String) (h : (s.entries.map Prod.fst).Nodup) :
    ((s.put key e).entries.map Prod.fst).Nodup := by
  unfold Cache.put
  split
  · have hsame : (s.entries.map fun held => if held.1 == key then (key, e) else held).map Prod.fst =
        s.entries.map Prod.fst := by
      rw [List.map_map]
      refine List.map_congr_left fun held _ => ?_
      simp only [Function.comp_apply]
      split
      · next heq => exact (eq_of_beq heq).symm
      · rfl
    dsimp only
    rw [hsame]
    exact h
  · next hnew =>
      dsimp only
      rw [List.map_append, List.nodup_append]
      refine ⟨h, List.nodup_singleton _, fun a ha b hb heq => hnew ?_⟩
      obtain ⟨held, hheld, rfl⟩ := List.mem_map.mp ha
      refine List.any_eq_true.mpr ⟨held, hheld, beq_iff_eq.mpr ?_⟩
      exact heq.trans (List.mem_singleton.mp hb)

theorem put_eq (key : String) : s.put key e = { s with entries := (s.put key e).entries } := by
  unfold Cache.put
  split
  · rfl
  · rfl

theorem Core.create {key : String} {entry : Entry} (h : Core limits R Untouched s)
    (hready : Next.measure.Ready limits s) (hfits : entry.Fits 0) (hgone : entry.gone = false)
    (hsettled : entry.settled = false) (hkey : entry.key = key) :
    Core limits R Untouched ({ s with heap := s.heap ++ [entry],
                                      builds := s.builds + 1 }.put key s.heap.length) := by
  have hold : ∀ (e : Nat) (row : Entry), (s.heap ++ [entry])[e]? = some row →
      s.heap[e]? = some row ∨ e = s.heap.length ∧ row = entry := by
    intro e row hrow
    rw [List.getElem?_append] at hrow
    split at hrow
    · exact .inl hrow
    · next hlt =>
        obtain ⟨hsub, heq⟩ := List.getElem?_eq_some_iff.mp hrow
        simp only [List.length_singleton] at hsub
        have hzero : e - s.heap.length = 0 := Nat.lt_one_iff.mp hsub
        refine .inr ⟨Nat.le_antisymm (Nat.sub_eq_zero_iff_le.mp hzero) (Nat.not_lt.mp hlt), ?_⟩
        simpa [hzero] using heq.symm
  have hkeep : ∀ (e : Nat) (row : Entry), s.heap[e]? = some row →
      (s.heap ++ [entry])[e]? = some row := by
    intro e row hrow
    rw [List.getElem?_append_left (List.getElem?_eq_some_iff.mp hrow).1]
    exact hrow
  have hmem :=
    mem_put (s := { s with heap := s.heap ++ [entry], builds := s.builds + 1 })
      (e := s.heap.length) key
  have hlength :=
    length_put_le (s := { s with heap := s.heap ++ [entry], builds := s.builds + 1 })
      (e := s.heap.length) key
  have hkeys := keys_put (s := { s with heap := s.heap ++ [entry], builds := s.builds + 1 })
    (e := s.heap.length) key h.keys
  rw [put_eq] at hmem hlength hkeys ⊢
  exact {
    fits := fun e row hrow => by
      rcases hold e row hrow with hrow | ⟨rfl, rfl⟩
      · exact h.fits e row hrow
      · -- Nothing holds an entry that was not there.
        have hzero : s.holders s.heap.length = 0 := by
          refine List.countP_eq_zero.mpr fun call hcall hholds => ?_
          exact absurd (h.held call hcall _ hholds) (Nat.lt_irrefl _)
        rw [← hzero] at hfits
        exact hfits
    gone := fun e row hrow hg => by
      rcases hold e row hrow with hrow | ⟨rfl, rfl⟩
      · refine (h.gone e row hrow hg).imp_right (.imp_right fun hcached => ?_)
        rw [Cache.cached, List.any_eq_false] at hcached ⊢
        intro held hheld heq
        rcases hmem held hheld with hin | rfl
        · exact hcached held hin heq
        · have hlt := (List.getElem?_eq_some_iff.mp hrow).1
          rw [← eq_of_beq heq] at hlt
          exact Nat.lt_irrefl _ hlt
      · rw [hgone] at hg
        cases hg
    dying := fun _ hdying => hdying.elim
    held := fun call hcall e hholds => by
      rw [List.length_append]
      exact Nat.lt_add_right _ (h.held call hcall e hholds)
    reads := fun call hcall e hreads => by
      obtain ⟨row, hrow, hbuilt⟩ := h.reads call hcall e hreads
      exact ⟨row, hkeep e row hrow, hbuilt⟩
    keys := hkeys
    named := fun held hheld => by
      rcases hmem held hheld with hin | rfl
      · obtain ⟨row, hrow, heq⟩ := h.named held hin
        exact ⟨row, hkeep _ row hrow, heq⟩
      · exact ⟨entry, List.getElem?_concat_length, hkey⟩
    size := hlength.trans hready.2.1
    builds := by
      rw [List.countP_append, h.builds]
      simp [hsettled]
    limit := hready.1
    fresh := fun hfresh => by
      have hinit := hready.2.2
      rw [hfresh] at hinit
      cases hinit }

/-- The first use of the directory: there are no entries yet. -/
theorem Core.sweep (h : Core limits R D s) (hinit : s.initialized = false) : s.sweep = s := by
  have hnil := h.fresh hinit
  unfold Cache.sweep
  rw [hnil, List.map_nil, ← hnil]

theorem Core.initialized (h : Core limits R D s) :
    Core limits R D { s with initialized := true } where
  fits := h.fits
  gone := h.gone
  dying := h.dying
  held := h.held
  reads := h.reads
  keys := h.keys
  named := h.named
  size := h.size
  builds := h.builds
  limit := h.limit
  fresh := nofun

namespace Running

variable {request : Request}

theorem create {key generation : String} (h : Running limits Untouched i s)
    (hready : Turn.measuring.Ready limits s)
    (hrequest : ∀ call : Call, s.calls[i]? = some call → call.request.isReady = false) :
    Inv limits (s.create i key request generation) := by
  have hcore : Core limits Untouched Untouched { s with sequence := s.sequence + 1 } :=
    h.core.frame rfl rfl rfl rfl rfl
  suffices hmade : ∀ entry : Entry, entry.Fits 0 → entry.gone = false →
      entry.settled = false → entry.key = key →
      Inv limits (({ s with heap := s.heap ++ [entry], builds := s.builds + 1,
                            sequence := s.sequence + 1 }.put key
        s.heap.length).grant i s.heap.length request) from
    hmade _ ⟨rfl, nofun, nofun, nofun, nofun, nofun⟩ rfl rfl rfl
  intro entry hfits hgone hsettled hkey
  have hput := hcore.create hready hfits hgone hsettled hkey
  refine (h.frame hput ?_ ?_ ?_ ?_).grant ?_ hgone ?_
  all_goals rw [put_eq]
  · exact List.getElem?_concat_length
  · exact hrequest

theorem measured {answer : Answer} (hinv : Inv limits s) (h : Running limits Untouched i s)
    (hready : Turn.measuring.Ready limits s)
    (hrequest : ∀ call : Call, s.calls[i]? = some call → call.request = request) :
    Inv limits (s.measured limits i request answer) := by
  unfold Cache.measured
  split
  · exact h.refuse
  · split
    · split
      · exact h.refuse
      · exact h.goOn (remove_spec h.core _) hready
    · split
      · exact h.create hready fun call hcall => by rw [hrequest call hcall]; rfl
      · exact h.create hready fun call hcall => by rw [hrequest call hcall]; rfl
      · exact hinv

theorem enter {closes : Bool} (h : Running limits Untouched i s) :
    Inv limits (s.enter limits i request closes) := by
  unfold Cache.enter
  split
  · split
    · exact h.expire _
    · exact h.refuse
  · split
    · exact h.expire _
    · exact h.refuse
  · exact h.expire _
  · exact h.expire _
  · split
    · exact h.expire _
    · split
      · exact h.goOn (remove_spec h.core _) trivial
      · exact h.expire _

theorem proceed {answer : Answer} {next : Next} (h : Running limits Untouched i s)
    (hready : next.Ready limits s)
    (hrequest : ∀ call : Call, s.calls[i]? = some call → call.request = request) :
    Inv limits (s.proceed limits i request answer next) := by
  cases next with
  | expire rest => exact h.expire rest
  | expireAll => exact h.expire _
  | expired =>
      cases request with
      | start key background => exact h.find fun call hcall => by rw [hrequest call hcall]; rfl
      | use key => exact h.find fun call hcall => by rw [hrequest call hcall]; rfl
      | useReady key generation => exact h.leaseReady
      | retry key => exact h.finish
      | expire => exact h.finish
  | admitEntry => exact h.admitEntry
  | initializeRoot => exact h.turn .initializing hready
  | measure => exact h.turn .measuring hready

end Running

/-- The action that the section waits for runs again. -/
theorem Inv.running {action : Action} (h : Inv limits s) (haction : s.exclusive = some action) :
    Running limits (fun f => action.turn.removes f) action.call s := by
  have hqueued : s.queued = action.call :: s.admission := by simp [Cache.queued, haction]
  have hdrained : ∀ closing ∈ s.closings, closing = .admission := by
    intro closing hclosing
    refine (h.drained closing hclosing).resolve_right fun hnil => ?_
    rw [hqueued] at hnil
    cases hnil
  have hremoving : ∀ f, s.removing f ↔ action.turn.removes f := by
    intro f
    constructor
    · rintro (⟨other, hother, hremoves⟩ | ⟨rest, hmem⟩)
      · cases haction.symm.trans hother
        exact hremoves
      · cases hdrained _ hmem
    · exact fun hremoves => .inl ⟨action, haction, hremoves⟩
  exact {
    core := h.core.weaken (fun f => (hremoving f).mp) fun f => (hremoving f).mpr
    distinct := hqueued ▸ h.distinct
    admitting := hqueued ▸ h.admitting
    drained := hdrained
    closed := h.closed }

theorem Inv.resumeExclusive {answer : Answer} (h : Inv limits s) :
    Inv limits (s.resumeExclusive limits answer) := by
  unfold Cache.resumeExclusive
  split
  -- the section is taken, and its action goes on
  · next action haction =>
      have hready := h.ready action haction
      have hrunning := h.running haction
      split
      · exact h
      · next call hcall =>
        have hrequest : ∀ other : Call, s.calls[action.call]? = some other →
            other.request = call.request := by
          intro other hother
          cases hcall.symm.trans hother
          rfl
        obtain ⟨i, turn⟩ := action
        cases turn with
        | next after => exact hrunning.proceed hready hrequest
        | removing e after =>
            have hcore :
                Core limits (fun f => Untouched f ∨ f = e) (fun f => Untouched f ∨ f = e) s :=
              hrunning.core.weaken (fun _ hremoves => .inr hremoves.symm) fun _ hor =>
                (hor.resolve_left id).symm
            exact hrunning.goOn (removed_spec hcore _) hready
        | initializing =>
            rw [Cache.resumeAction]
            split
            · next hinit => exact hrunning.turn .measuring ⟨hready.1, hready.2, hinit⟩
            · next hinit =>
                rw [hrunning.core.sweep (Bool.eq_false_iff.mpr hinit)]
                split
                · exact (hrunning.frame hrunning.core.initialized rfl rfl rfl rfl).turn .measuring
                    ⟨hready.1, hready.2, rfl⟩
                · exact hrunning.refuse
        | measuring => exact hrunning.measured h hready hrequest
  -- the section is free, and the next call enters
  · next hexclusive =>
      split
      · exact h
      · next i rest hadmission =>
          have hqueued : s.queued = i :: rest := by simp [Cache.queued, hexclusive, hadmission]
          split
          · exact h
          · refine Running.enter {
              core := ?_
              distinct := hqueued ▸ h.distinct
              admitting := hqueued ▸ h.admitting
              drained := ?_
              closed := h.closed }
            · refine (h.core.weaken (fun f hremoving => ?_) fun _ =>
                False.elim).frame rfl rfl rfl rfl rfl
              rcases hremoving with ⟨action, haction, -⟩ | ⟨rest', hmem⟩
              · rw [hexclusive] at haction
                cases haction
              · have hnil := (h.drained _ hmem).resolve_left nofun
                rw [hqueued] at hnil
                cases hnil
            · intro closing hclosing
              refine (h.drained closing hclosing).resolve_right fun hnil => ?_
              rw [hqueued] at hnil
              cases hnil

end Pluton.SnapshotIndex
