-- SUMMARY: The invariant of the cache of snapshot indexes, and what removals and leases keep of it.
import Pluton.SnapshotIndex.Cache
import Pluton.Table

/-!
# What the cache keeps

The invariant has three layers. `Core` is about the entries and the calls: it holds at
every await point of every part of the cache, given the entries `R` whose directories are
being removed. `Running` adds what holds while an action of the section runs: the calls
that wait for their turn are distinct, and no `close` has passed the section. `Inv` adds
what the waiting action still relies on.
-/
namespace Pluton.SnapshotIndex

/-! ## Entries -/

/-- The index is closed, or `remove` has turned to its directory. -/
def Entry.gone (entry : Entry) : Bool :=
  entry.closed || entry.directory == .removing || entry.directory == .removed

/-- The build has no index, and will have none. -/
def Build.fails : Build → Bool
  | .clearing _ | .failed _ => true
  | _ => false

def Build.finished : Build → Bool
  | .built | .failed _ => true
  | _ => false

/-- What holds of an entry that so many calls hold. -/
structure Entry.Fits (entry : Entry) (holders : Nat) : Prop where
  readers : entry.readers = holders
  built : entry.index = true → entry.build = .built
  gone : entry.gone = true → entry.unused = true ∧ entry.index = false
  cleared : entry.directory = .clearing ∨ entry.directory = .cleared → entry.build.fails = true
  finished : entry.settled = true → entry.build.finished = true
  indexed : entry.build = .built → entry.index = true ∨ entry.closed = true

/-- What no change of an entry undoes. -/
structure Entry.Kept (old new : Entry) : Prop where
  key : new.key = old.key
  built : old.build = .built → new.build = .built
  gone : old.gone = true → new.gone = true

/-- A change of an entry that does not settle it. -/
structure Entry.Stays (old new : Entry) : Prop extends Kept old new where
  settled : new.settled = old.settled

/-- The change is not one that the invariant sees. -/
structure Entry.Same (old new : Entry) : Prop where
  key : new.key = old.key
  index : new.index = old.index
  closed : new.closed = old.closed
  error : new.error = old.error
  readers : new.readers = old.readers
  settled : new.settled = old.settled
  directory : new.directory = old.directory
  build : new.build = old.build

namespace Entry

variable {entry old new : Entry} {holders : Nat}

theorem Same.gone (h : Same old new) : new.gone = old.gone := by
  simp only [Entry.gone, h.closed, h.directory]

theorem Same.unused (h : Same old new) : new.unused = old.unused := by
  simp only [Entry.unused, h.settled, h.readers]

theorem Same.fits (h : Same old new) (hfits : old.Fits holders) : new.Fits holders where
  readers := h.readers.trans hfits.readers
  built hindex := h.build.trans (hfits.built (h.index ▸ hindex))
  gone hgone := by
    rw [h.unused, h.index]
    exact hfits.gone (h.gone ▸ hgone)
  cleared := by
    rw [h.directory, h.build]
    exact hfits.cleared
  finished := by
    rw [h.settled, h.build]
    exact hfits.finished
  indexed := by
    rw [h.build, h.index, h.closed]
    exact hfits.indexed

theorem Same.stays (h : Same old new) : Stays old new where
  key := h.key
  built hbuilt := h.build.trans hbuilt
  gone hgone := h.gone.trans hgone
  settled := h.settled

theorem gone_eq_false :
    entry.gone = false ↔ entry.closed = false ∧ entry.directory ≠ .removing ∧
    entry.directory ≠ .removed := by
  simp [gone, and_assoc]

theorem unused_iff : entry.unused = true ↔ entry.settled = true ∧ entry.readers = 0 := by
  simp [unused]

end Entry

def Request.isReady : Request → Bool
  | .useReady .. => true
  | _ => false

/-- The call has the index of that entry, or takes it next. -/
def Call.reads (e : Nat) (call : Call) : Prop :=
  call.place = .consuming e ∨ call.place = .leased e ∧ call.request.isReady = true

/-! ## The invariant -/

namespace Cache

/-- How many calls hold that entry. -/
def holders (s : Cache) (e : Nat) : Nat := s.calls.countP fun call => call.place.holds e

theorem getElem?_amend {s : Cache} {e f : Nat} {set : Entry → Entry} {entry : Entry}
    (h : s.heap[f]? = some entry) :
    (s.amend e set).heap[f]? = some (if e = f then set entry else entry) := by
  simp only [amend, List.getElem?_modify, h, Option.map_eq_map, Option.map_some]

end Cache

/-- `R` are the entries that may be gone although they could still be found, `D` those
whose directories are being removed. -/
structure Core (limits : Limits) (R D : Nat → Prop) (s : Cache) : Prop where
  fits : ∀ (e : Nat) (entry : Entry), s.heap[e]? = some entry → entry.Fits (s.holders e)
  gone : ∀ (e : Nat) (entry : Entry), s.heap[e]? = some entry → entry.gone = true →
    entry.error.isSome = true ∨ R e ∨ s.cached e = false
  dying : ∀ e, D e → ∀ entry, s.heap[e]? = some entry → entry.gone = true
  held : ∀ call ∈ s.calls, ∀ e, call.place.holds e = true → e < s.heap.length
  reads : ∀ call ∈ s.calls, ∀ e, call.reads e →
    ∃ entry, s.heap[e]? = some entry ∧ entry.build = .built
  keys : (s.entries.map Prod.fst).Nodup
  named : ∀ held ∈ s.entries, ∃ entry, s.heap[held.2]? = some entry ∧ entry.key = held.1
  size : s.entries.length ≤ limits.maxIndexes
  builds : s.builds = s.heap.countP fun entry => !entry.settled
  limit : s.builds ≤ limits.maxBuilds
  fresh : s.initialized = false → s.heap = []

/-- What the action in the section relies on when it goes on. -/
def Next.Ready (limits : Limits) (s : Cache) : Next → Prop
  | .initializeRoot => s.builds < limits.maxBuilds ∧ s.entries.length < limits.maxIndexes
  | .measure =>
      s.builds < limits.maxBuilds ∧ s.entries.length < limits.maxIndexes ∧ s.initialized = true
  | _ => True

def Turn.Ready (limits : Limits) (s : Cache) : Turn → Prop
  | .next after => after.Ready limits s
  | .removing e .initializeRoot => s.builds < limits.maxBuilds ∧ s.cached e = true
  | .removing _ after => after.Ready limits s
  | .initializing => Next.initializeRoot.Ready limits s
  | .measuring => Next.measure.Ready limits s

def Turn.removes (e : Nat) : Turn → Prop
  | .removing f _ => f = e
  | _ => False

/-- While the action of that call runs. -/
structure Running (limits : Limits) (R : Nat → Prop) (i : Nat) (s : Cache) : Prop where
  core : Core limits R R s
  distinct : (i :: s.admission).Nodup
  admitting : ∀ j ∈ i :: s.admission, ∃ call, s.calls[j]? = some call ∧ call.place = .admitting
  drained : ∀ closing ∈ s.closings, closing = .admission
  closed : s.closings ≠ [] → s.closed = true

/-- No directory is being removed. -/
def Untouched (_ : Nat) : Prop := False

/-- The calls that wait for the section, or are in it. -/
def Cache.queued (s : Cache) : List Nat := (s.exclusive.map Action.call).toList ++ s.admission

/-- The section, or a `close`, waits for the directory of that entry. -/
def Cache.removing (s : Cache) (e : Nat) : Prop :=
  (∃ action, s.exclusive = some action ∧ action.turn.removes e) ∨
    ∃ rest, Closing.removing e rest ∈ s.closings

structure Inv (limits : Limits) (s : Cache) : Prop where
  core : Core limits s.removing s.removing s
  distinct : s.queued.Nodup
  admitting : ∀ j ∈ s.queued, ∃ call, s.calls[j]? = some call ∧ call.place = .admitting
  ready : ∀ action, s.exclusive = some action → action.turn.Ready limits s
  drained : ∀ closing ∈ s.closings, closing = .admission ∨ s.queued = []
  closed : s.closings ≠ [] → s.closed = true

variable {limits : Limits} {R D : Nat → Prop} {s : Cache} {i e : Nat}

/-! ## Entries of the heap -/

namespace Core

/-- A change that leaves the entries and the calls alone. -/
theorem mono {R' D' : Nat → Prop} (h : Core limits R D s)
    (hR : ∀ e entry, s.heap[e]? = some entry → entry.gone = true → R e →
      entry.error.isSome = true ∨ R' e ∨ s.cached e = false)
    (hD : ∀ e, D' e → D e ∨ ∀ entry, s.heap[e]? = some entry → entry.gone = true) :
    Core limits R' D' s where
  fits := h.fits
  gone e entry hentry hgone := by
    rcases h.gone e entry hentry hgone with herror | hmay | hcached
    · exact .inl herror
    · exact hR e entry hentry hgone hmay
    · exact .inr (.inr hcached)
  dying e hdying := (hD e hdying).elim (h.dying e) id
  held := h.held
  reads := h.reads
  keys := h.keys
  named := h.named
  size := h.size
  builds := h.builds
  limit := h.limit
  fresh := h.fresh

theorem weaken {R' D' : Nat → Prop} (h : Core limits R D s) (hR : ∀ e, R e → R' e)
    (hD : ∀ e, D' e → D e) :
    Core limits R' D' s :=
  h.mono (fun e _ _ _ hmay => .inr (.inl (hR e hmay))) fun e hdying => .inl (hD e hdying)

variable {set : Entry → Entry}

/-- A change of one entry, and of the calls that hold it. -/
theorem change {R' : Nat → Prop} {s' : Cache} (h : Core limits R D s)
    (hheap : s'.heap = s.heap.modify e set)
    (hbuilds : s'.builds = s'.heap.countP fun entry => !entry.settled)
    (hentries : s'.entries = s.entries) (hlimit : s'.builds ≤ s.builds)
    (hinit : s'.initialized = s.initialized) (hholders : ∀ f, f ≠ e → s'.holders f = s.holders f)
    (hcalls : ∀ call ∈ s'.calls, call ∈ s.calls ∨
      (∀ f, call.place.holds f = true → f < s.heap.length) ∧
      ∀ f, call.reads f → ∃ entry, s.heap[f]? = some entry ∧ entry.build = .built)
    (hR : ∀ f, f ≠ e → R f → R' f)
    (hset : ∀ entry, s.heap[e]? = some entry → entry.Fits (s.holders e) →
      entry.Kept (set entry) ∧ (set entry).Fits (s'.holders e) ∧
        ((set entry).gone = true → (set entry).error.isSome = true ∨ R' e ∨ s.cached e = false)) :
    Core limits R' D s' := by
  have hset' := fun entry hentry => hset entry hentry (h.fits e entry hentry)
  have hfind : ∀ f old, s.heap[f]? = some old →
      s'.heap[f]? = some (if e = f then set old else old) := by
    intro f old hold
    rw [hheap]
    exact Cache.getElem?_amend hold
  -- every entry is kept: the changed one by `hset`, the others as they are
  have hkept : ∀ (f : Nat) (old : Entry), s.heap[f]? = some old →
      old.Kept (if e = f then set old else old) := by
    intro f old hold
    split
    · next heq =>
        subst heq
        exact (hset' old hold).1
    · exact ⟨rfl, id, id⟩
  exact {
    fits := fun f entry hentry => by
      rw [hheap] at hentry
      obtain ⟨old, hold, rfl⟩ := Table.exists_of_modify hentry
      split
      · next heq =>
          subst heq
          exact (hset' old hold).2.1
      · next hne =>
          rw [hholders f (Ne.symm hne)]
          exact h.fits f old hold
    gone := fun f entry hentry hgone => by
      rw [hheap] at hentry
      obtain ⟨old, hold, rfl⟩ := Table.exists_of_modify hentry
      unfold Cache.cached
      rw [hentries]
      by_cases heq : e = f
      · subst heq
        rw [if_pos rfl] at hgone ⊢
        exact (hset' old hold).2.2 hgone
      · rw [if_neg heq] at hgone ⊢
        exact (h.gone f old hold hgone).imp_right (.imp_left (hR f (Ne.symm heq)))
    dying := fun f hdying entry hentry => by
      rw [hheap] at hentry
      obtain ⟨old, hold, rfl⟩ := Table.exists_of_modify hentry
      exact (hkept f old hold).gone (h.dying f hdying old hold)
    held := fun call hcall f hholds => by
      rw [hheap, List.length_modify]
      rcases hcalls call hcall with hold | ⟨hheld, -⟩
      · exact h.held call hold f hholds
      · exact hheld f hholds
    reads := fun call hcall f hreads => by
      have hbuilt : ∃ entry, s.heap[f]? = some entry ∧ entry.build = .built := by
        rcases hcalls call hcall with hold | ⟨-, hnew⟩
        · exact h.reads call hold f hreads
        · exact hnew f hreads
      obtain ⟨old, hold, hbuilt⟩ := hbuilt
      exact ⟨_, hfind f old hold, (hkept f old hold).built hbuilt⟩
    keys := by rw [hentries]; exact h.keys
    named := fun held hheld => by
      rw [hentries] at hheld
      obtain ⟨old, hold, hkey⟩ := h.named held hheld
      exact ⟨_, hfind _ old hold, (hkept _ old hold).key.trans hkey⟩
    size := by rw [hentries]; exact h.size
    builds := hbuilds
    limit := hlimit.trans h.limit
    fresh := fun hfresh => by
      rw [hheap, h.fresh (hinit ▸ hfresh), List.modify_nil] }

theorem builds_modify (h : Core limits R D s)
    (hset : ∀ entry, s.heap[e]? = some entry → (set entry).settled = entry.settled) :
    s.builds = (s.heap.modify e set).countP fun entry => !entry.settled := by
  refine h.builds.trans (Table.countP_modify_eq fun entry hentry => ?_).symm
  rw [hset entry hentry]

theorem amend {R' : Nat → Prop} (h : Core limits R D s) (hR : ∀ f, f ≠ e → R f → R' f)
    (hset : ∀ entry, s.heap[e]? = some entry → entry.Fits (s.holders e) →
      entry.Stays (set entry) ∧ (set entry).Fits (s.holders e) ∧
        ((set entry).gone = true → (set entry).error.isSome = true ∨ R' e ∨ s.cached e = false)) :
    Core limits R' D (s.amend e set) := by
  have hbuilds :=
    h.builds_modify fun entry hentry => (hset entry hentry (h.fits e entry hentry)).1.settled
  exact h.change rfl hbuilds rfl (Nat.le_refl _) rfl (fun _ _ => rfl)
    (fun _ => .inl) hR fun entry hentry hfits =>
      (hset entry hentry hfits).imp_left Entry.Stays.toKept

theorem amend_same (h : Core limits R D s) (hset : ∀ entry : Entry, entry.Same (set entry)) :
    Core limits R D (s.amend e set) := by
  refine h.amend (fun _ _ hR => hR) fun entry hentry hfits =>
    ⟨(hset entry).stays, (hset entry).fits hfits, ?_⟩
  intro hgone
  rw [(hset entry).error]
  exact h.gone e entry hentry ((hset entry).gone ▸ hgone)

/-- The core does not see the clock, the section, or the calls of `close`. -/
theorem frame {s' : Cache} (h : Core limits R D s) (hheap : s'.heap = s.heap)
    (hentries : s'.entries = s.entries) (hcalls : s'.calls = s.calls)
    (hbuilds : s'.builds = s.builds) (hinit : s'.initialized = s.initialized) :
    Core limits R D s' where
  fits e entry := by
    unfold Cache.holders
    rw [hheap, hcalls]
    exact h.fits e entry
  gone e entry := by
    unfold Cache.cached
    rw [hheap, hentries]
    exact h.gone e entry
  dying e := by rw [hheap]; exact h.dying e
  held := by rw [hheap, hcalls]; exact h.held
  reads := by rw [hheap, hcalls]; exact h.reads
  keys := by rw [hentries]; exact h.keys
  named := by rw [hheap, hentries]; exact h.named
  size := by rw [hentries]; exact h.size
  builds := by rw [hheap, hbuilds]; exact h.builds
  limit := by rw [hbuilds]; exact h.limit
  fresh := by rw [hheap, hinit]; exact h.fresh

theorem touch (h : Core limits R D s) : Core limits R D (s.touch e) := by
  have hamend : Core limits R D (s.amend e fun entry =>
      { entry with updated := s.now, used := s.sequence + 1 }) :=
    h.amend_same fun _ => ⟨rfl, rfl, rfl, rfl, rfl, rfl, rfl, rfl⟩
  exact hamend.frame rfl rfl rfl rfl rfl

/-! ## Removal -/

theorem delete {key : String} (h : Core limits R D s) : Core limits R D (s.delete key e) := by
  unfold Cache.delete
  split
  · have hsub : (s.entries.filter fun held => held.1 != key).Sublist s.entries :=
      List.filter_sublist
    exact {
      fits := h.fits
      gone := fun f entry hentry hgone => by
        refine (h.gone f entry hentry hgone).imp_right (.imp_right fun hcached => ?_)
        rw [Cache.cached, List.any_eq_false] at hcached ⊢
        exact fun held hheld => hcached held (hsub.subset hheld)
      dying := h.dying
      held := h.held
      reads := h.reads
      keys := (hsub.map Prod.fst).nodup h.keys
      named := fun held hheld => h.named held (hsub.subset hheld)
      size := hsub.length_le.trans h.size
      builds := h.builds
      limit := h.limit
      fresh := h.fresh }
  · exact h

/-- The map finds an entry that it has under the key of the entry. -/
theorem find_key {entry : Entry} (h : Core limits R D s) (hentry : s.heap[e]? = some entry)
    (hcached : s.cached e = true) :
    s.entries.find? (fun held => held.1 == entry.key) = some (entry.key, e) := by
  obtain ⟨held, hheld, heq⟩ := List.any_eq_true.mp hcached
  obtain ⟨named, hnamed, hkey⟩ := h.named held hheld
  obtain ⟨key, f⟩ := held
  cases eq_of_beq heq
  cases hnamed.symm.trans hentry
  cases hkey
  exact Table.find?_key h.keys hheld

theorem cached_delete {entry : Entry} {key : String} (h : Core limits R D s)
    (hentry : s.heap[e]? = some entry) (hkey : entry.key = key) :
    (s.delete key e).cached e = false := by
  subst hkey
  cases hcached : s.cached e with
  | false =>
      rw [Cache.cached, List.any_eq_false] at hcached ⊢
      unfold Cache.delete
      split
      · exact fun held hheld => hcached held (List.mem_filter.mp hheld).1
      · exact hcached
  | true =>
      have hfind := h.find_key hentry hcached
      simp only [Cache.delete, hfind, Option.any_some, beq_self_eq_true, if_true]
      rw [Cache.cached, List.any_eq_false]
      rintro ⟨key, f⟩ hheld heq
      obtain ⟨hmem, hne⟩ := List.mem_filter.mp hheld
      obtain ⟨named, hnamed, hkey⟩ := h.named _ hmem
      cases eq_of_beq heq
      cases hnamed.symm.trans hentry
      exact absurd hkey.symm (bne_iff_ne.mp hne)

theorem length_delete {entry : Entry} (h : Core limits R D s) (hentry : s.heap[e]? = some entry)
    (hcached : s.cached e = true) : (s.delete entry.key e).entries.length < s.entries.length := by
  have hfind := h.find_key hentry hcached
  simp only [Cache.delete, hfind, Option.any_some, beq_self_eq_true, if_true]
  exact List.length_filter_lt_length_iff_exists.mpr ⟨_, List.mem_of_find?_eq_some hfind, by simp⟩

end Core

/-- What `remove`, or its end, leaves: the section, the calls and the builds as they
were, the map no longer, and shorter once the removal is done. -/
structure Removes (limits : Limits) (R : Nat → Prop) (e : Nat) (s : Cache)
    (next : Cache × Removal) : Prop where
  core : Core limits (fun f => R f ∨ f = e ∧ next.2 = .waiting)
    (fun f => R f ∨ f = e ∧ next.2 = .waiting) next.1
  calls : next.1.calls = s.calls
  exclusive : next.1.exclusive = s.exclusive
  admission : next.1.admission = s.admission
  closings : next.1.closings = s.closings
  closed : next.1.closed = s.closed
  builds : next.1.builds = s.builds
  initialized : next.1.initialized = s.initialized
  waiting : next.2 = .waiting → next.1.entries = s.entries
  length : next.1.entries.length ≤ s.entries.length
  done : next.2 = .done → s.cached e = true → next.1.entries.length < s.entries.length

theorem Core.cleanupFailed (h : Core limits R D s) :
    Core limits (fun f => R f ∧ f ≠ e) D (s.cleanupFailed e).1 := by
  refine h.amend (fun f hne hR => ⟨hR, hne⟩) fun entry hentry hfits =>
    ⟨⟨⟨rfl, id, id⟩, rfl⟩, ?_, fun _ => .inl rfl⟩
  exact ⟨hfits.readers, hfits.built, hfits.gone, hfits.cleared, hfits.finished, hfits.indexed⟩

/-- An entry that nothing uses lets its index go, and its directory where it has one. -/
theorem Core.released {entry : Entry} {set : Entry → Entry} (h : Core limits R D s)
    (hentry : s.heap[e]? = some entry) (hunused : entry.unused = true)
    (hset : set entry = entry.closeIndex ∨
      set entry = { entry.closeIndex with directory := .removing }) :
    Core limits (fun f => R f ∨ f = e) D (s.amend e set) := by
  refine h.amend (fun _ _ => .inl) fun row hrow hfits => ?_
  cases hrow.symm.trans hentry
  have hindexed : entry.build = .built →
      false = true ∨ (entry.closed || entry.index) = true := fun hbuilt =>
    .inr (Bool.or_eq_true_iff.mpr (hfits.indexed hbuilt).symm)
  rcases hset with hset | hset <;> rw [hset]
  · refine ⟨⟨⟨rfl, id, fun hgone => ?_⟩, rfl⟩, ?_, fun _ => .inr (.inl (.inr rfl))⟩
    · simp only [Entry.gone, Entry.closeIndex] at hgone ⊢
      grind
    · exact ⟨hfits.readers, nofun, fun _ => ⟨hunused, rfl⟩, hfits.cleared, hfits.finished, hindexed⟩
  · refine ⟨⟨⟨rfl, id, fun _ => ?_⟩, rfl⟩, ?_, fun _ => .inr (.inl (.inr rfl))⟩
    · simp [Entry.gone]
    · exact ⟨hfits.readers, nofun, fun _ => ⟨hunused, rfl⟩, nofun, hfits.finished, hindexed⟩

theorem delete_eq (key : String) :
    ∃ entries, s.delete key e = { s with entries := entries } ∧
      entries.length ≤ s.entries.length := by
  unfold Cache.delete
  split
  · exact ⟨_, rfl, List.length_filter_le ..⟩
  · exact ⟨_, rfl, Nat.le_refl _⟩

/-- The end of a removal: the map forgets the entry. -/
theorem Core.done {entry : Entry} {set : Entry → Entry}
    (h : Core limits (fun f => R f ∨ f = e) R (s.amend e set)) (hentry : s.heap[e]? = some entry)
    (hkey : (set entry).key = entry.key) :
    Removes limits R e s ((s.amend e set).delete entry.key e, .done) := by
  have hentry' : (s.amend e set).heap[e]? = some (set entry) := by
    rw [Cache.getElem?_amend hentry, if_pos rfl]
  have hcached := h.cached_delete hentry' hkey
  have hcore : Core limits R R ((s.amend e set).delete entry.key e) := by
    refine h.delete.mono (fun f _ _ _ hmay => ?_) fun f hR => .inl hR
    rcases hmay with hR | rfl
    · exact .inr (.inl hR)
    · exact .inr (.inr hcached)
  have hshorter : s.cached e = true →
      ((s.amend e set).delete entry.key e).entries.length < s.entries.length :=
    fun hcached => hkey ▸ h.length_delete hentry' hcached
  obtain ⟨entries, heq, hlength⟩ := delete_eq (s := s.amend e set) (e := e) entry.key
  rw [heq] at hcore hshorter ⊢
  exact ⟨hcore.weaken (fun _ => .inl) fun _ hR => hR.resolve_right nofun, rfl, rfl, rfl, rfl, rfl,
    rfl, rfl, nofun, hlength,
    fun _ => hshorter⟩

theorem Core.cached_of_none (h : Core limits R D s) (hentry : s.heap[e]? = none) :
    s.cached e = false := by
  rw [Cache.cached, List.any_eq_false]
  intro held hheld heq
  obtain ⟨named, hnamed, -⟩ := h.named held hheld
  cases hentry.symm.trans (eq_of_beq heq ▸ hnamed)

theorem Core.stays (h : Core limits R R s) {removal : Removal} (hwaiting : removal ≠ .waiting)
    (hdone : removal = .done → s.cached e = false) : Removes limits R e s (s, removal) where
  core := h.weaken (fun _ => .inl) fun _ hR => hR.resolve_right fun hboth => hwaiting hboth.2
  calls := rfl
  exclusive := rfl
  admission := rfl
  closings := rfl
  closed := rfl
  builds := rfl
  initialized := rfl
  waiting _ := rfl
  length := Nat.le_refl _
  done heq hcached := by rw [hdone heq] at hcached; cases hcached

theorem Core.removes_failed (h : Core limits (fun f => R f ∨ f = e) R s) :
    Removes limits R e s (s.cleanupFailed e) where
  core := h.cleanupFailed.weaken (fun _ hR => .inl (hR.1.resolve_right hR.2)) fun _ hR =>
    hR.resolve_right nofun
  calls := rfl
  exclusive := rfl
  admission := rfl
  closings := rfl
  closed := rfl
  builds := rfl
  initialized := rfl
  waiting := nofun
  length := Nat.le_refl _
  done := nofun

theorem remove_spec (h : Core limits R R s) (closes : Bool) :
    Removes limits R e s (s.remove e closes) := by
  unfold Cache.remove
  cases hentry : s.heap[e]? with
  | none => exact h.stays nofun fun _ => h.cached_of_none hentry
  | some entry =>
      dsimp only
      split
      · exact h.stays nofun nofun
      · next hunused =>
          rw [Bool.not_eq_true, Bool.not_eq_false'] at hunused
          split
          · exact (h.weaken (fun _ => .inl) fun _ hR => hR).removes_failed
          · split
            · exact (h.released hentry hunused (.inl rfl)).done hentry rfl
            · have hcore : Core limits (fun f => R f ∨ f = e) R
                  (s.amend e fun row => { row.closeIndex with directory := .removing }) :=
                h.released hentry hunused (.inr rfl)
              refine ⟨hcore.mono (fun f _ _ _ hmay =>
                .inr (.inl (hmay.imp_right fun heq => ⟨heq, rfl⟩))) fun f hR => ?_,
                rfl, rfl, rfl, rfl, rfl, rfl, rfl, fun _ => rfl, Nat.le_refl _, nofun⟩
              refine hR.imp_right fun heq row hrow => ?_
              obtain ⟨old, hold, rfl⟩ := Table.exists_of_modify hrow
              rw [if_pos heq.1.symm]
              simp [Entry.gone]

/-- The directory of an entry is removed, or it is not. -/
theorem removed_spec (h : Core limits (fun f => R f ∨ f = e) (fun f => R f ∨ f = e) s)
    (returned : Bool) :
    Removes limits R e s (s.removed e returned) := by
  have hcore : Core limits (fun f => R f ∨ f = e) R s := h.weaken (fun _ => id) fun _ => .inl
  unfold Cache.removed
  cases hentry : s.heap[e]? with
  | none =>
      have hcached := h.cached_of_none hentry
      have hcore' : Core limits R R s := by
        refine hcore.mono (fun f row hrow _ hmay => ?_) fun _ => .inl
        rcases hmay with hR | rfl
        · exact .inr (.inl hR)
        · exact .inr (.inr hcached)
      exact hcore'.stays nofun fun _ => hcached
  | some entry =>
      dsimp only
      split
      · have hgone := h.dying e (.inr rfl) entry hentry
        have hremoved : Core limits (fun f => R f ∨ f = e) R (s.amend e fun row =>
            { row with directory := .removed }) := by
          refine hcore.amend (fun _ _ => id) fun row hrow hfits => ?_
          cases hrow.symm.trans hentry
          refine ⟨⟨⟨rfl, id, fun _ => ?_⟩, rfl⟩, ?_, fun _ => .inr (.inl (.inr rfl))⟩
          · simp [Entry.gone]
          · exact ⟨hfits.readers, hfits.built, fun _ => hfits.gone hgone, nofun,
              hfits.finished, hfits.indexed⟩
        exact hremoved.done hentry rfl
      · exact hcore.removes_failed

/-! ## Leases -/

theorem holders_setPlace {call : Call} (place : Place) (hcall : s.calls[i]? = some call) :
    (s.setPlace i place).holders e + (if call.place.holds e then 1 else 0) =
      s.holders e + if place.holds e then 1 else 0 :=
  Table.countP_modify hcall

theorem mem_setPlace {call other : Call} {place : Place} (hcall : s.calls[i]? = some call)
    (hother : other ∈ (s.setPlace i place).calls) :
    other ∈ s.calls ∨ other = { call with place := place } := by
  obtain ⟨j, hj⟩ := List.mem_iff_getElem?.mp hother
  obtain ⟨old, hold, rfl⟩ := Table.exists_of_modify hj
  split
  · next heq =>
      subst heq
      cases hcall.symm.trans hold
      exact .inr rfl
  · exact .inl (List.mem_of_getElem? hold)

namespace Core

/-- A call moves on, and the entry that it took or gives back with it. -/
theorem transfer {call : Call} {place : Place} {set : Entry → Entry} (h : Core limits R D s)
    (hcall : s.calls[i]? = some call) (hplace : ∀ f, f ≠ e → place.holds f = call.place.holds f)
    (hheld : ∀ f, place.holds f = true → f < s.heap.length)
    (hreads : ∀ f, Call.reads f { call with place := place } →
      ∃ entry, s.heap[f]? = some entry ∧ entry.build = .built)
    (hset : ∀ entry, s.heap[e]? = some entry → entry.Fits (s.holders e) →
      entry.Stays (set entry) ∧ (set entry).Fits ((s.setPlace i place).holders e) ∧
        ((set entry).gone = true → (set entry).error.isSome = true ∨ R e ∨ s.cached e = false)) :
    Core limits R D ((s.amend e set).setPlace i place) := by
  have hbuilds :=
    h.builds_modify fun entry hentry => (hset entry hentry (h.fits e entry hentry)).1.settled
  refine h.change rfl hbuilds rfl (Nat.le_refl _) rfl (fun f hne => ?_)
    (fun other hother => ?_) (fun _ _ => id)
    fun entry hentry hfits => (hset entry hentry hfits).imp_left Entry.Stays.toKept
  · have hsame := holders_setPlace (e := f) place hcall
    rw [hplace f hne] at hsame
    exact Nat.add_right_cancel hsame
  · rcases mem_setPlace hcall hother with hold | rfl
    · exact .inl hold
    · exact .inr ⟨hheld, hreads⟩

theorem setPlace {call : Call} {place : Place} (h : Core limits R D s)
    (hcall : s.calls[i]? = some call) (hplace : ∀ f, place.holds f = call.place.holds f)
    (hreads : ∀ f, Call.reads f { call with place := place } →
      ∃ entry, s.heap[f]? = some entry ∧ entry.build = .built) :
    Core limits R D (s.setPlace i place) := by
  have hmem : call ∈ s.calls := List.mem_of_getElem? hcall
  have hsame : (s.amend 0 id).setPlace i place = s.setPlace i place := by
    simp only [Cache.amend, List.modify_id]
  rw [← hsame]
  refine h.transfer hcall (fun f _ => hplace f) (fun f hholds =>
    h.held call hmem f (hplace f ▸ hholds)) hreads
    fun entry hentry hfits => ⟨⟨⟨rfl, id, id⟩, rfl⟩, ?_, h.gone 0 entry hentry⟩
  have hholders := holders_setPlace (e := 0) place hcall
  rw [hplace 0] at hholders
  rw [Nat.add_right_cancel hholders]
  exact hfits

theorem lease {call : Call} {entry : Entry} {set : Entry → Entry} (h : Core limits R D s)
    (hcall : s.calls[i]? = some call) (hfree : ∀ f, call.place.holds f = false)
    (hentry : s.heap[e]? = some entry) (hgone : entry.gone = false)
    (hready : call.request.isReady = true → entry.build = .built)
    (hset : ∀ entry : Entry, { entry with readers := entry.readers + 1 }.Same (set entry)) :
    Core limits R D ((s.amend e set).setPlace i (.leased e)) := by
  refine h.transfer hcall (fun f hne => ?_) (fun f hholds => ?_)
    (fun f hreads => ?_) fun row hrow hfits => ?_
  · rw [hfree f]
    exact beq_eq_false_iff_ne.mpr (Ne.symm hne)
  · rw [← eq_of_beq (a := e) hholds]
    exact (List.getElem?_eq_some_iff.mp hentry).1
  · rcases hreads with hplace | ⟨hplace, hrequest⟩
    · cases hplace
    · cases hplace
      exact ⟨entry, hentry, hready hrequest⟩
  · cases hrow.symm.trans hentry
    have hsame := hset entry
    have hstill : (set entry).gone = false := hsame.gone.trans hgone
    refine ⟨⟨⟨hsame.key, hsame.build.trans, fun h => ?_⟩, hsame.settled⟩, ?_, fun h => ?_⟩
    · rw [hgone] at h; cases h
    · refine ⟨?_, fun h => hsame.build.trans (hfits.built (hsame.index ▸ h)),
        fun h => ?_, ?_, ?_, ?_⟩
      · have hholders := holders_setPlace (e := e) (.leased e) hcall
        rw [hfree e] at hholders
        simp only [Place.holds, beq_self_eq_true, if_true, Bool.false_eq_true, if_false,
          Nat.add_zero] at hholders
        rw [hholders, hsame.readers, ← hfits.readers]
      · rw [hstill] at h; cases h
      · rw [hsame.directory, hsame.build]
        exact hfits.cleared
      · rw [hsame.settled, hsame.build]
        exact hfits.finished
      · rw [hsame.build, hsame.index, hsame.closed]
        exact hfits.indexed
    · rw [hstill] at h; cases h

theorem release {call : Call} {place : Place} (h : Core limits R D s)
    (hcall : s.calls[i]? = some call) (hholds : ∀ f, call.place.holds f = (e == f))
    (hfree : ∀ f, place.holds f = false) :
    Core limits R D ((s.amend e fun entry =>
      { entry with readers := entry.readers - 1 }).setPlace i place) := by
  refine h.transfer hcall (fun f hne => ?_) (fun f hh => ?_)
    (fun f hreads => ?_) fun row hrow hfits => ?_
  · rw [hfree f, hholds f]
    exact (beq_eq_false_iff_ne.mpr (Ne.symm hne)).symm
  · rw [hfree f] at hh; cases hh
  · have hfalse := hfree f
    rcases hreads with hplace | ⟨hplace, -⟩
    · rw [show place = .consuming f from hplace] at hfalse
      simp [Place.holds] at hfalse
    · rw [show place = .leased f from hplace] at hfalse
      simp [Place.holds] at hfalse
  · have hholders := holders_setPlace (e := e) place hcall
    rw [hfree e, hholds e] at hholders
    simp only [beq_self_eq_true, if_true, Bool.false_eq_true, if_false, Nat.add_zero] at hholders
    have hone : row.readers = (s.setPlace i place).holders e + 1 :=
      hfits.readers.trans hholders.symm
    -- A gone entry has no readers to give it back.
    have hnot : row.gone = false := by
      cases hgone : row.gone with
      | false => rfl
      | true =>
          have hzero := (Entry.unused_iff.mp (hfits.gone hgone).1).2
          rw [hone] at hzero
          cases hzero
    refine ⟨⟨⟨rfl, id, id⟩, rfl⟩, ?_, fun hgone => ?_⟩
    · refine ⟨?_, hfits.built, fun hgone => ?_, hfits.cleared, hfits.finished, hfits.indexed⟩
      · exact (congrArg (· - 1) hone).trans (Nat.add_sub_cancel ..)
      · exact absurd (hnot.symm.trans hgone) (by simp)
    · exact absurd (hnot.symm.trans hgone) (by simp)

end Core

end Pluton.SnapshotIndex
