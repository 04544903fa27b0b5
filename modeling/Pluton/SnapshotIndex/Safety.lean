-- SUMMARY: The index cache keeps its bounds, and closes no index that a call reads.
import Pluton.SnapshotIndex.Section

/-!
# Safety of the cache

What runs outside the section keeps the invariant too: the calls that hold an entry, the
builds, and `close`. `cache_safe` reads the invariant in the states that a run reaches.
-/
namespace Pluton.SnapshotIndex

section

variable {limits : Limits} {R D : Nat → Prop} {s : Cache} {i e : Nat} {entry : Entry} {c : Nat}
  {old : Closing} {set : Entry → Entry} {closing : Closing}

/-! ## Calls -/

theorem Inv.outside {s' : Cache} (h : Inv limits s) (hcore : Core limits s.removing s.removing s')
    (hexclusive : s'.exclusive = s.exclusive) (hadmission : s'.admission = s.admission)
    (hcalls : ∀ (j : Nat) (call : Call), s.calls[j]? = some call → call.place = .admitting →
      ∃ call' : Call, s'.calls[j]? = some call' ∧ call'.place = .admitting)
    (hclosings : s'.closings = s.closings) (hclosed : s'.closed = s.closed)
    (hbuilds : s'.builds ≤ s.builds) (hentries : s'.entries = s.entries)
    (hinit : s'.initialized = s.initialized) : Inv limits s' where
  core := by
    have hremoving : s'.removing = s.removing := by
      unfold Cache.removing
      rw [hexclusive, hclosings]
    rw [hremoving]
    exact hcore
  distinct := by
    unfold Cache.queued
    rw [hexclusive, hadmission]
    exact h.distinct
  admitting j hj := by
    unfold Cache.queued at hj
    rw [hexclusive, hadmission] at hj
    obtain ⟨call, hcall, hplace⟩ := h.admitting j hj
    exact hcalls j call hcall hplace
  ready action haction := by
    rw [hexclusive] at haction
    exact (h.ready action haction).frame hbuilds hentries (by rw [hinit]; exact id)
  drained closing hclosing := by
    unfold Cache.queued
    rw [hexclusive, hadmission]
    rw [hclosings] at hclosing
    exact h.drained closing hclosing
  closed := by rw [hclosings, hclosed]; exact h.closed

theorem Inv.amend_same (h : Inv limits s) (hset : ∀ entry : Entry, entry.Same (set entry)) :
    Inv limits (s.amend e set) :=
  h.outside (h.core.amend_same hset) rfl rfl (fun _ call hcall hplace =>
    ⟨call, hcall, hplace⟩) rfl rfl (Nat.le_refl _) rfl rfl

theorem Inv.touch (h : Inv limits s) : Inv limits (s.touch e) :=
  h.outside h.core.touch rfl rfl (fun _ call hcall hplace => ⟨call, hcall, hplace⟩) rfl rfl
    (Nat.le_refl _) rfl rfl

/-- A call moves on that does not wait for the section. -/
theorem admitting_setPlace {call : Call} {place : Place} (hcall : s.calls[i]? = some call)
    (hplace : call.place ≠ .admitting) (j : Nat) (other : Call) (hother : s.calls[j]? = some other)
    (hadmitting : other.place = .admitting) :
    ∃ other' : Call, (s.setPlace i place).calls[j]? = some other' ∧ other'.place = .admitting := by
  have hne : i ≠ j := by
    rintro rfl
    cases hcall.symm.trans hother
    exact hplace hadmitting
  exact ⟨other, (List.getElem?_modify_ne _ _ hne).trans hother, hadmitting⟩

theorem Inv.setPlace {call : Call} {place : Place} (h : Inv limits s)
    (hcall : s.calls[i]? = some call) (hadmitting : call.place ≠ .admitting)
    (hplace : ∀ f, place.holds f = call.place.holds f)
    (hreads : ∀ f, Call.reads f { call with place := place } →
      ∃ entry, s.heap[f]? = some entry ∧ entry.build = .built) :
    Inv limits (s.setPlace i place) :=
  h.outside (h.core.setPlace hcall hplace hreads) rfl rfl
    (admitting_setPlace hcall hadmitting) rfl rfl (Nat.le_refl _)
    rfl rfl

/-- The calls of `close` move on, with the same directories under removal. -/
theorem Inv.closings {s' : Cache} {closings : List Closing} (h : Inv limits s)
    (heq : s' = { s with closings := closings })
    (hremoving : ∀ e rest, .removing e rest ∈ closings ↔ .removing e rest ∈ s.closings)
    (hdrained : ∀ closing ∈ closings, closing = .admission ∨ ∃ old ∈ s.closings, old ≠ .admission)
    (hclosed : closings ≠ [] → s.closings ≠ []) : Inv limits s' := by
  subst heq
  have hsame : Cache.removing { s with closings := closings } = s.removing := by
    funext e
    simp only [Cache.removing, hremoving]
  exact {
    core := by
      rw [hsame]
      exact h.core.frame rfl rfl rfl rfl rfl
    distinct := h.distinct
    admitting := h.admitting
    ready := fun action haction => (h.ready action haction).frame (Nat.le_refl _) rfl id
    drained := fun closing hclosing => by
      refine (hdrained closing hclosing).imp_right ?_
      rintro ⟨old, hold, hne⟩
      exact (h.drained old hold).resolve_left hne
    closed := fun hne => h.closed (hclosed hne) }

/-- A `close` that waits for readers goes on. -/
theorem Inv.wake (idle : Option Nat) (h : Inv limits s) : Inv limits (s.wake idle) := by
  cases idle with
  | none => exact h
  | some c =>
      refine h.closings rfl (fun e rest => ⟨fun hmem => ?_, fun hmem => ?_⟩)
        (fun closing hclosing => ?_) fun hne hnil => ?_
      · obtain ⟨j, hj⟩ := List.mem_iff_getElem?.mp hmem
        obtain ⟨old, hold, heq⟩ := Table.exists_of_modify hj
        have hsame : old = .removing e rest := by
          split at heq
          · cases old <;> first | exact heq.symm | cases heq
          · exact heq.symm
        exact hsame ▸ List.mem_of_getElem? hold
      · obtain ⟨j, hj⟩ := List.mem_iff_getElem?.mp hmem
        refine List.mem_of_getElem? (i := j) ?_
        simp only [List.getElem?_modify, hj, Option.map_eq_map, Option.map_some, ite_self]
      · obtain ⟨j, hj⟩ := List.mem_iff_getElem?.mp hclosing
        obtain ⟨old, hold, heq⟩ := Table.exists_of_modify hj
        by_cases hadmission : old = .admission
        · subst hadmission
          refine .inl (heq.trans ?_)
          simp only [ite_self]
        · exact .inr ⟨old, List.mem_of_getElem? hold, hadmission⟩
      · rw [hnil, List.modify_nil] at hne
        exact hne rfl

/-- The `finally` of a call. -/
theorem Inv.release {call : Call} {result : Result} (h : Inv limits s)
    (hcall : s.calls[i]? = some call) (hholds : ∀ f, call.place.holds f = (e == f)) :
    Inv limits (s.release i e call result) := by
  have hadmitting : call.place ≠ .admitting := by
    intro heq
    have htrue := hholds e
    rw [heq] at htrue
    simp [Place.holds] at htrue
  have hplaced : ∀ place : Place, (∀ f, place.holds f = false) →
      Inv limits ((s.amend e fun entry =>
        { entry with readers := entry.readers - 1 }).setPlace i place) := fun place hfree =>
    h.outside (h.core.release hcall hholds hfree) rfl rfl
      (admitting_setPlace hcall hadmitting) rfl rfl (Nat.le_refl _) rfl rfl
  unfold Cache.release
  split
  · exact h
  · next entry hentry =>
      dsimp only
      generalize hidle : entry.idle = idle
      split
      · have hlast := (hplaced (.settling e result) fun _ => rfl).touch (e := e)
        have haborted : Inv limits
            (((s.amend e fun entry => { entry with readers := entry.readers - 1 }).setPlace i
            (.settling e result)).touch e |>.amend e fun row => { row with aborted := true }) :=
          hlast.amend_same fun _ => ⟨rfl, rfl, rfl, rfl, rfl, rfl, rfl, rfl⟩
        split
        · cases idle with
          | none => exact haborted
          | some c => exact haborted.wake (some c)
        · exact haborted
      · have hended := (hplaced (.ended result) fun _ => rfl).touch (e := e)
        split
        · cases idle with
          | none => exact hended
          | some c => exact hended.wake (some c)
        · exact hended

theorem Inv.resumeCall {call : Call} {answer : Answer} (h : Inv limits s)
    (hcall : s.calls[i]? = some call) :
    Inv limits (s.resumeCall i call answer) := by
  obtain ⟨request, aborted, place⟩ := call
  unfold Cache.resumeCall
  cases place with
  | admitting => exact h
  | ended result => exact h
  | leased e =>
      dsimp only
      split
      · next key generation =>
          refine h.setPlace hcall nofun (fun _ => rfl) fun f hreads => ?_
          rcases hreads with hplace | ⟨hplace, -⟩
          · cases hplace
            exact h.core.reads _ (List.mem_of_getElem? hcall) _ (.inr ⟨rfl, rfl⟩)
          · cases hplace
      · exact h.setPlace hcall nofun (fun _ => rfl) fun f hreads => by
          rcases hreads with h | ⟨h, -⟩ <;> cases h
  | waiting e =>
      dsimp only
      split
      · exact h
      · next entry hentry =>
          split
          · exact h.release hcall fun _ => rfl
          · split
            · exact h
            · split
              · next hbuilt =>
                  split
                  · exact h.release hcall fun _ => rfl
                  · refine h.setPlace hcall nofun (fun _ => rfl) fun f hreads => ?_
                    rcases hreads with hplace | ⟨hplace, -⟩
                    · cases hplace
                      exact ⟨entry, hentry, hbuilt⟩
                    · cases hplace
              · exact h.release hcall fun _ => rfl
              · exact h
  | consuming e => exact h.release hcall fun _ => rfl
  | settling e result =>
      dsimp only
      split
      · exact h.setPlace hcall nofun (fun _ => rfl) fun f hreads => by
          rcases hreads with h | ⟨h, -⟩ <;> cases h
      · exact h

theorem Core.append {call : Call} (h : Core limits R D s)
    (hplace : call.place = .admitting ∨ ∃ result, call.place = .ended result) :
    Core limits R D { s with calls := s.calls ++ [call] } := by
  have hholds : ∀ f, call.place.holds f = false := by
    intro f
    rcases hplace with hplace | ⟨result, hplace⟩
    · rw [hplace]; rfl
    · rw [hplace]; rfl
  have hreads : ∀ f, ¬ call.reads f := by
    intro f hreads
    rcases hplace with hplace | ⟨result, hplace⟩ <;> simp [Call.reads, hplace] at hreads
  have hholders : ∀ f, Cache.holders { s with calls := s.calls ++ [call] } f = s.holders f := by
    intro f
    simp [Cache.holders, List.countP_append, hholds f]
  exact {
    fits := fun e entry hentry => by
      rw [hholders e]
      exact h.fits e entry hentry
    gone := h.gone
    dying := h.dying
    held := fun other hother f hf => by
      rcases List.mem_append.mp hother with hold | hnew
      · exact h.held other hold f hf
      · rw [List.mem_singleton.mp hnew, hholds f] at hf
        cases hf
    reads := fun other hother f hf => by
      rcases List.mem_append.mp hother with hold | hnew
      · exact h.reads other hold f hf
      · rw [List.mem_singleton.mp hnew] at hf
        exact absurd hf (hreads f)
    keys := h.keys
    named := h.named
    size := h.size
    builds := h.builds
    limit := h.limit
    fresh := h.fresh }

theorem Inv.call {request : Request} {aborted : Bool} (h : Inv limits s) :
    Inv limits (s.call request aborted) := by
  -- A refused call is one more call that has ended.
  have hended : ∀ error, Inv limits { s with
      calls := s.calls ++ [⟨request, aborted, .ended (.failed error)⟩] } := by
    intro error
    refine h.outside (h.core.append (.inr ⟨_, rfl⟩)) rfl rfl
      (fun j other hother hplace => ⟨other, ?_, hplace⟩) rfl rfl
      (Nat.le_refl _) rfl rfl
    exact (List.getElem?_append_left (List.getElem?_eq_some_iff.mp hother).1).trans hother
  unfold Cache.call
  split
  · exact hended _
  · split
    · exact hended _
    · next hopen =>
        split
        · exact hended _
        · have hnil : s.closings = [] := by
            refine Classical.byContradiction fun hne => hopen (h.closed hne)
          -- The new call waits behind those that wait already.
          have hqueued : ∀ j, j ∈ s.queued ++ [s.calls.length] →
              j ∈ s.queued ∨ j = s.calls.length := fun j hj =>
            (List.mem_append.mp hj).imp_right List.mem_singleton.mp
          have heq : Cache.queued { s with
              calls := s.calls ++ [⟨request, aborted, .admitting⟩],
              admission := s.admission ++ [s.calls.length] } =
                s.queued ++ [s.calls.length] := by
            simp only [Cache.queued, List.append_assoc]
          exact {
            core := (h.core.append (.inl rfl)).frame rfl rfl rfl rfl rfl
            distinct := by
              rw [heq, List.nodup_append]
              refine ⟨h.distinct, List.nodup_singleton _, fun a ha b hb hab => ?_⟩
              obtain ⟨other, hother, -⟩ := h.admitting a ha
              have hlt := (List.getElem?_eq_some_iff.mp hother).1
              rw [hab, List.mem_singleton.mp hb] at hlt
              exact Nat.lt_irrefl _ hlt
            admitting := fun j hj => by
              rw [heq] at hj
              rcases hqueued j hj with hold | rfl
              · obtain ⟨other, hother, hplace⟩ := h.admitting j hold
                refine ⟨other, ?_, hplace⟩
                exact (List.getElem?_append_left
                  (List.getElem?_eq_some_iff.mp hother).1).trans hother
              · exact ⟨_, List.getElem?_concat_length, rfl⟩
            ready := fun action haction => (h.ready action haction).frame (Nat.le_refl _) rfl id
            drained := fun closing hclosing => by
              rw [show ({ s with calls := _, admission := _ } : Cache).closings =
                s.closings from rfl, hnil] at hclosing
              cases hclosing
            closed := h.closed }

/-! ## Builds -/

theorem Inv.amend (h : Inv limits s)
    (hset : ∀ entry, s.heap[e]? = some entry → entry.Fits (s.holders e) →
      entry.Stays (set entry) ∧ (set entry).Fits (s.holders e) ∧
        ((set entry).gone = true → (set entry).error.isSome = true ∨ s.removing e ∨
          s.cached e = false)) :
    Inv limits (s.amend e set) :=
  h.outside (h.core.amend (fun _ _ => id) hset) rfl rfl (fun _ call hcall hplace =>
    ⟨call, hcall, hplace⟩) rfl rfl
    (Nat.le_refl _) rfl rfl

theorem Entry.Fits.building {holders : Nat} (h : entry.Fits holders)
    (hbuild : entry.build.finished = false) :
    entry.gone = false ∧ entry.index = false ∧ entry.settled = false := by
  have hsettled : entry.settled = false := by
    cases hsettled : entry.settled with
    | false => rfl
    | true =>
        rw [h.finished hsettled] at hbuild
        cases hbuild
  refine ⟨?_, ?_, hsettled⟩
  · cases hgone : entry.gone with
    | false => rfl
    | true =>
        rw [(Entry.unused_iff.mp (h.gone hgone).1).1] at hsettled
        cases hsettled
  · cases hindex : entry.index with
    | false => rfl
    | true =>
        rw [h.built hindex] at hbuild
        cases hbuild

/-- A build goes on, with a directory that is not being removed. -/
theorem Inv.build (h : Inv limits s) (hentry : s.heap[e]? = some entry)
    (hbuild : entry.build.finished = false) (hkey : (set entry).key = entry.key)
    (hreaders : (set entry).readers = entry.readers)
    (hsettled : (set entry).settled = entry.settled)
    (hgone : entry.gone = false → (set entry).gone = false)
    (hindex : (set entry).index = true ↔ (set entry).build = .built)
    (hcleared : (set entry).directory = .clearing ∨ (set entry).directory = .cleared →
      (set entry).build.fails = true) :
    Inv limits (s.amend e set) := by
  refine h.amend fun row hrow hfits => ?_
  cases hrow.symm.trans hentry
  obtain ⟨hnot, hnone, hunsettled⟩ := hfits.building hbuild
  have hnot' : (set entry).gone = true → False := fun hg => by
    rw [hgone hnot] at hg
    cases hg
  refine ⟨⟨⟨hkey, fun hbuilt => ?_, fun hg => ?_⟩, hsettled⟩, ?_, fun hg => (hnot' hg).elim⟩
  · rw [hbuilt] at hbuild
    cases hbuild
  · rw [hnot] at hg
    cases hg
  · refine ⟨hreaders.trans hfits.readers, hindex.mp, fun hg => (hnot' hg).elim,
      hcleared, fun hs => ?_,
      fun hbuilt => .inl (hindex.mpr hbuilt)⟩
    rw [hsettled, hunsettled] at hs
    cases hs

theorem Inv.failBuild {error : AppError} (h : Inv limits s) (hentry : s.heap[e]? = some entry)
    (hbuild : entry.build.finished = false) :
    Inv limits (s.failBuild e error) := by
  have hnone := ((h.core.fits e entry hentry).building hbuild).2.1
  exact h.build hentry hbuild rfl rfl rfl id
    ⟨fun hindex => absurd (hnone.symm.trans hindex) nofun, nofun⟩ fun _ => rfl

theorem Inv.clearBuild {error : AppError} (h : Inv limits s) (hentry : s.heap[e]? = some entry)
    (hbuild : entry.build.finished = false) :
    Inv limits (s.clearBuild e error) := by
  have hnone := ((h.core.fits e entry hentry).building hbuild).2.1
  refine h.build hentry hbuild rfl rfl rfl (fun hgone => ?_)
    ⟨fun hindex => absurd (hnone.symm.trans hindex) nofun, nofun⟩
    fun _ => rfl
  rw [Entry.gone_eq_false] at hgone ⊢
  exact ⟨hgone.1, nofun, nofun⟩

/-- The build settles, with an index or without. -/
theorem Inv.settle (h : Inv limits s) (hentry : s.heap[e]? = some entry)
    (hbuild : entry.build.finished = true) (hsettled : entry.settled = false) :
    Inv limits (s.settle e) := by
  have hfits := h.core.fits e entry hentry
  have hnot : entry.gone = false := by
    cases hgone : entry.gone with
    | false => rfl
    | true =>
        rw [(Entry.unused_iff.mp (hfits.gone hgone).1).1] at hsettled
        cases hsettled
  have hcount :=
    Table.countP_modify (p := fun entry : Entry => !entry.settled)
      (f := fun entry => { entry with settled := true }) hentry
  simp only [hsettled, Bool.not_false, Bool.not_true, if_true, Bool.false_eq_true, if_false,
    Nat.add_zero] at hcount
  have hbuilds : s.builds - 1 = (s.heap.modify e fun entry =>
      { entry with settled := true }).countP fun entry => !entry.settled := by
    rw [h.core.builds, ← hcount]
    exact Nat.add_sub_cancel ..
  have hcore : Core limits s.removing s.removing
      { s with heap := s.heap.modify e fun entry => { entry with settled := true },
               builds := s.builds - 1 } := by
    refine h.core.change rfl hbuilds rfl (Nat.sub_le ..) rfl (fun _ _ => rfl)
      (fun _ => .inl) (fun _ _ => id)
      fun row hrow hfits => ?_
    cases hrow.symm.trans hentry
    refine ⟨⟨rfl, id, id⟩, ⟨hfits.readers, hfits.built, fun hgone => ?_, hfits.cleared,
      fun _ => hbuild, hfits.indexed⟩, fun hgone => ?_⟩
    · exact absurd (hnot.symm.trans hgone) nofun
    · exact absurd (hnot.symm.trans hgone) nofun
  have htouch : Core limits s.removing s.removing (s.settle e) := hcore.touch (e := e)
  exact h.outside htouch rfl rfl (fun _ call hcall hplace => ⟨call, hcall, hplace⟩) rfl rfl
    (Nat.sub_le ..) rfl rfl

theorem Inv.resumeBuild {answer : BuildAnswer} (h : Inv limits s)
    (hentry : s.heap[e]? = some entry) :
    Inv limits (s.resumeBuild limits e entry answer) := by
  unfold Cache.resumeBuild
  split
  · next hbuild =>
      have hopen : entry.build.finished = false := by rw [hbuild]; rfl
      have hnone := ((h.core.fits e entry hentry).building hopen).2.1
      split
      · exact h.failBuild hentry hopen
      · refine h.build hentry hopen rfl rfl rfl (fun hgone => ?_)
          ⟨fun hindex => absurd (hnone.symm.trans hindex) nofun, nofun⟩ nofun
        rw [Entry.gone_eq_false] at hgone ⊢
        exact ⟨hgone.1, nofun, nofun⟩
  · next hbuild => exact h.failBuild hentry (by rw [hbuild]; rfl)
  · next hbuild =>
      have hopen : entry.build.finished = false := by rw [hbuild]; rfl
      split
      · exact h.clearBuild hentry hopen
      · refine h.build hentry hopen rfl rfl rfl id ⟨fun _ => rfl, fun _ => rfl⟩ fun hcleared => ?_
        have hfails := (h.core.fits e entry hentry).cleared hcleared
        rw [hbuild] at hfails
        cases hfails
  · next hbuild => exact h.clearBuild hentry (by rw [hbuild]; rfl)
  · next hbuild =>
      have hopen : entry.build.finished = false := by rw [hbuild]; rfl
      have hnone := ((h.core.fits e entry hentry).building hopen).2.1
      have hcleared : Inv limits (s.amend e fun row => { row with directory := .cleared }) := by
        refine h.build hentry hopen rfl rfl rfl (fun hgone => ?_)
          ⟨fun hindex => absurd (hnone.symm.trans hindex) nofun,
            fun hbuilt => absurd (hbuild.symm.trans hbuilt) nofun⟩
          fun _ => by rw [hbuild]; rfl
        rw [Entry.gone_eq_false] at hgone ⊢
        exact ⟨hgone.1, nofun, nofun⟩
      refine hcleared.failBuild (Cache.getElem?_amend hentry) ?_
      rw [if_pos rfl]
      exact hopen
  · next hbuild => exact h.failBuild hentry (by rw [hbuild]; rfl)
  · next hbuild =>
      split
      · exact h
      · next hsettled =>
          exact h.settle hentry (by rw [hbuild]; rfl) (Bool.eq_false_iff.mpr hsettled)
  · next hbuild =>
      split
      · exact h
      · next hsettled =>
          exact h.settle hentry (by rw [hbuild]; rfl) (Bool.eq_false_iff.mpr hsettled)

/-! ## Closing -/

/-- Another call of `close` waits for the directory of that entry. -/
def Others (c : Nat) (closings : List Closing) (e : Nat) : Prop :=
  ∃ d, d ≠ c ∧ ∃ rest, closings[d]? = some (.removing e rest)

theorem removing_iff {closings : List Closing} (h : closings[c]? = some closing) :
    (∃ rest, .removing e rest ∈ closings) ↔
    Others c closings e ∨ ∃ rest, closing = .removing e rest := by
  constructor
  · rintro ⟨rest, hmem⟩
    obtain ⟨d, hd⟩ := List.mem_iff_getElem?.mp hmem
    by_cases heq : d = c
    · subst heq
      cases h.symm.trans hd
      exact .inr ⟨rest, rfl⟩
    · exact .inl ⟨d, heq, rest, hd⟩
  · rintro (⟨d, -, rest, hd⟩ | ⟨rest, rfl⟩)
    · exact ⟨rest, List.mem_of_getElem? hd⟩
    · exact ⟨rest, List.mem_of_getElem? h⟩

theorem others_set {closings : List Closing} :
    Others c (closings.set c closing) e ↔ Others c closings e := by
  have hsame : ∀ d, d ≠ c → (closings.set c closing)[d]? = closings[d]? := fun d hne =>
    List.getElem?_set_ne (Ne.symm hne)
  constructor
  · rintro ⟨d, hne, rest, hd⟩
    exact ⟨d, hne, rest, (hsame d hne).symm.trans hd⟩
  · rintro ⟨d, hne, rest, hd⟩
    exact ⟨d, hne, rest, (hsame d hne).trans hd⟩

/-- A call of `close` has moved on, after the section has ended for good. -/
theorem Inv.setClosing {s' : Cache} (closing : Closing) (h : Inv limits s)
    (hold : s.closings[c]? = some old) (hqueued : s.queued = [])
    (hcore : Core limits (fun f => Others c s.closings f ∨ ∃ rest, closing = .removing f rest)
      (fun f => Others c s.closings f ∨ ∃ rest, closing = .removing f rest) s')
    (hexclusive : s'.exclusive = s.exclusive) (hadmission : s'.admission = s.admission)
    (hclosings : s'.closings = s.closings) (hclosed : s'.closed = s.closed) :
    Inv limits (s'.setClosing c closing) := by
  obtain ⟨hnone, hempty⟩ : s.exclusive = none ∧ s.admission = [] := by
    obtain ⟨hmap, hempty⟩ := List.append_eq_nil_iff.mp hqueued
    exact ⟨by simpa using hmap, hempty⟩
  have hqueued' : (s'.setClosing c closing).queued = [] := by
    simp [Cache.queued, Cache.setClosing, hexclusive, hadmission, hnone, hempty]
  have hnew : (s'.closings.set c closing)[c]? = some closing := by
    rw [hclosings]
    exact List.getElem?_set_self (List.getElem?_eq_some_iff.mp hold).1
  have hremoving : ∀ f, (s'.setClosing c closing).removing f ↔
      Others c s.closings f ∨ ∃ rest, closing = .removing f rest := by
    intro f
    refine Iff.trans ⟨fun hremoving => hremoving.resolve_left ?_, .inr⟩
      ((removing_iff hnew).trans ?_)
    · rintro ⟨action, haction, -⟩
      rw [show (s'.setClosing c closing).exclusive = s'.exclusive from rfl,
        hexclusive, hnone] at haction
      cases haction
    · rw [others_set, hclosings]
  exact {
    core :=
      (hcore.weaken (fun f => (hremoving f).mpr) fun f =>
        (hremoving f).mp).frame rfl rfl rfl rfl rfl
    distinct := by rw [hqueued']; exact List.nodup_nil
    admitting := fun j hj => by
      rw [hqueued'] at hj
      cases hj
    ready := fun action haction => by
      rw [show (s'.setClosing c closing).exclusive = s'.exclusive from rfl,
        hexclusive, hnone] at haction
      cases haction
    drained := fun _ _ => .inr hqueued'
    closed := fun _ => by
      refine hclosed.trans (h.closed fun hnil => ?_)
      rw [hnil] at hold
      cases hold }

/-- What is under removal, seen from one call of `close`. -/
theorem removing_closing (hold : s.closings[c]? = some old) (hqueued : s.queued = []) :
    s.removing e ↔ Others c s.closings e ∨ ∃ rest, old = .removing e rest := by
  refine Iff.trans ⟨fun hremoving => hremoving.resolve_left ?_, .inr⟩ (removing_iff hold)
  rintro ⟨action, haction, -⟩
  have hnone := (List.append_eq_nil_iff.mp hqueued).1
  rw [haction] at hnone
  cases hnone

/-- A call of `close` moves on to where it waits for no directory. -/
theorem Inv.moveClosing {closing old : Closing} {s' : Cache} (h : Inv limits s)
    (hold : s.closings[c]? = some old) (hqueued : s.queued = []) (hinv : Inv limits s')
    (hexclusive : s'.exclusive = s.exclusive) (hadmission : s'.admission = s.admission)
    (hclosings : s'.closings = s.closings) (hclosed : s'.closed = s.closed)
    (hbefore : ∀ e rest, old ≠ .removing e rest) (hafter : ∀ e rest, closing ≠ .removing e rest) :
    Inv limits (s'.setClosing c closing) := by
  have hsame : s'.removing = s.removing := by
    unfold Cache.removing
    rw [hexclusive, hclosings]
  refine h.setClosing closing hold hqueued (hinv.core.weaken (fun f hremoving => ?_) fun f hother =>
    ?_) hexclusive hadmission
    hclosings hclosed
  · rw [hsame] at hremoving
    refine .inl (((removing_closing hold hqueued).mp hremoving).resolve_right ?_)
    rintro ⟨rest, heq⟩
    exact hbefore f rest heq
  · rw [hsame]
    refine (removing_closing hold hqueued).mpr (.inl (hother.resolve_right ?_))
    rintro ⟨rest, heq⟩
    exact hafter f rest heq

theorem Inv.closeOn {rest : List Nat} {removal : Cache × Removal} (h : Inv limits s)
    (hold : s.closings[c]? = some old) (hqueued : s.queued = [])
    (hremoves : Removes limits (Others c s.closings) e s removal) :
    Inv limits (Cache.closeOn c e rest removal) := by
  obtain ⟨s', removal⟩ := removal
  have hset := fun closing hcore =>
    h.setClosing closing hold hqueued hcore hremoves.exclusive hremoves.admission
    hremoves.closings hremoves.closed
  cases removal with
  | waiting =>
      refine hset _ (hremoves.core.weaken (fun f hR => hR.imp_right ?_) fun f hR => hR.imp_right ?_)
      · rintro ⟨rfl, -⟩
        exact ⟨rest, rfl⟩
      · rintro ⟨rest', heq⟩
        cases heq
        exact ⟨rfl, rfl⟩
  | done =>
      refine hset _ (hremoves.core.weaken (fun f hR => .inl (hR.resolve_right nofun)) fun f hR =>
        .inl (hR.resolve_right ?_))
      rintro ⟨rest', heq⟩
      cases heq
  | failed error =>
      refine hset _ (hremoves.core.weaken (fun f hR => .inl (hR.resolve_right nofun)) fun f hR =>
        .inl (hR.resolve_right ?_))
      rintro ⟨rest', heq⟩
      cases heq

/-- A call of `close` removes an entry. -/
theorem Inv.closeRemove {rest : List Nat} {closes : Bool} (h : Inv limits s)
    (hold : s.closings[c]? = some old) (hqueued : s.queued = [])
    (hbefore : ∀ e rest, old ≠ .removing e rest) :
    Inv limits (Cache.closeOn c e rest (s.remove e closes)) := by
  have hothers : ∀ f, s.removing f ↔ Others c s.closings f := fun f => by
    refine (removing_closing hold hqueued).trans ⟨fun hor => hor.resolve_right ?_, .inl⟩
    rintro ⟨rest', heq⟩
    exact hbefore f rest' heq
  exact h.closeOn hold hqueued
    (remove_spec (h.core.weaken (fun f => (hothers f).mp) fun f => (hothers f).mpr) closes)

theorem Inv.visit {closes : Bool} (rest : List Nat) (h : Inv limits s)
    (hold : s.closings[c]? = some old) (hqueued : s.queued = [])
    (hbefore : ∀ e rest, old ≠ .removing e rest) :
    Inv limits (s.visit c closes rest) := by
  induction rest with
  | nil => exact h.moveClosing hold hqueued h rfl rfl rfl rfl hbefore nofun
  | cons e rest ih =>
      rw [Cache.visit]
      split
      · exact ih
      · split
        · have hidle : Inv limits (s.amend e fun entry => { entry with idle := some c }) :=
            h.amend_same fun _ => ⟨rfl, rfl, rfl, rfl, rfl, rfl, rfl, rfl⟩
          exact h.moveClosing hold hqueued hidle rfl rfl rfl rfl hbefore nofun
        · exact h.closeRemove hold hqueued hbefore

theorem abortAll_inv (held : List (String × Nat)) (h : Inv limits s) :
    Inv limits (held.foldl (fun s held => s.amend held.2 fun entry =>
      { entry with aborted := true }) s) := by
  induction held generalizing s with
  | nil => exact h
  | cons first rest ih => exact ih (h.amend_same fun _ => ⟨rfl, rfl, rfl, rfl, rfl, rfl, rfl, rfl⟩)

theorem abortAll_eq (held : List (String × Nat)) :
    ∃ heap, held.foldl (fun s held => s.amend held.2 fun entry =>
      { entry with aborted := true }) s = { s with heap := heap } := by
  induction held generalizing s with
  | nil => exact ⟨_, rfl⟩
  | cons first rest ih =>
      obtain ⟨heap, heq⟩ := ih (s := s.amend first.2 fun entry => { entry with aborted := true })
      exact ⟨heap, heq⟩

theorem Inv.resumeClosing {answer : Answer} (h : Inv limits s)
    (hclosing : s.closings[c]? = some closing) : Inv limits (s.resumeClosing c closing answer) := by
  have hmem : closing ∈ s.closings := List.mem_of_getElem? hclosing
  have hqueued : closing ≠ .admission → s.queued = [] := fun hne =>
    (h.drained closing hmem).resolve_left hne
  unfold Cache.resumeClosing
  cases closing with
  | admission =>
      dsimp only
      split
      · exact h
      · next hempty =>
          have hqueued : s.queued = [] := by
            simp only [Bool.or_eq_true, not_or, Bool.not_eq_true, Option.isSome_eq_false_iff,
              Option.isNone_iff_eq_none, Bool.not_eq_false', List.isEmpty_iff] at hempty
            simp [Cache.queued, hempty]
          have hinv : Inv limits s.abortAll := abortAll_inv s.entries h
          obtain ⟨heap, heq⟩ := abortAll_eq (s := s) s.entries
          have heq' : s.abortAll = { s with heap := heap } := heq
          rw [heq'] at hinv ⊢
          exact h.moveClosing hclosing hqueued hinv rfl rfl rfl rfl (by simp) (by simp)
  | settling entries =>
      dsimp only
      split
      · exact h.moveClosing hclosing (hqueued (by simp)) h rfl rfl rfl rfl (by simp) (by simp)
      · exact h
  | visiting rest => exact h.visit rest hclosing (hqueued (by simp)) (by simp)
  | idling e rest woken =>
      dsimp only
      split
      · exact h.closeRemove hclosing (hqueued (by simp)) (by simp)
      · exact h
  | removing e rest =>
      have hboth : ∀ f, s.removing f ↔ Others c s.closings f ∨ f = e := fun f => by
        refine (removing_closing hclosing (hqueued (by simp))).trans (or_congr_right ⟨?_, ?_⟩)
        · rintro ⟨rest', heq⟩
          cases heq
          rfl
        · rintro rfl
          exact ⟨rest, rfl⟩
      exact h.closeOn hclosing (hqueued (by simp))
        (removed_spec (h.core.weaken (fun f => (hboth f).mp) fun f => (hboth f).mpr) _)
  | ended result => exact h

/-! ## Runs -/

theorem Inv.abort (h : Inv limits s) :
    Inv limits { s with calls := s.calls.modify i fun call => { call with aborted := true } } := by
  have hcore : Core limits s.removing s.removing { s with calls := s.calls.modify i fun call =>
      { call with aborted := true } } := by
    refine h.core.change (e :=
      0) (List.modify_id 0 s.heap).symm h.core.builds rfl (Nat.le_refl _) rfl
      (fun f _ => Table.countP_modify_eq fun _ _ => rfl) (fun call hcall => ?_) (fun _ _ => id)
      fun entry hentry hfits => ⟨⟨rfl, id, id⟩, ?_, h.core.gone 0 entry hentry⟩
    · obtain ⟨j, hj⟩ := List.mem_iff_getElem?.mp hcall
      obtain ⟨old, hold, rfl⟩ := Table.exists_of_modify hj
      have hmem := List.mem_of_getElem? hold
      split
      · exact .inr ⟨h.core.held old hmem, h.core.reads old hmem⟩
      · exact .inl hmem
    · have hsame : Cache.holders { s with calls := s.calls.modify i fun call =>
          { call with aborted := true } } 0 = s.holders 0 :=
        Table.countP_modify_eq fun _ _ => rfl
      rw [hsame]
      exact hfits
  refine h.outside hcore rfl rfl (fun j call hcall hplace => ?_) rfl rfl (Nat.le_refl _) rfl rfl
  refine ⟨if i = j then { call with aborted := true } else call, ?_, ?_⟩
  · simp only [List.getElem?_modify, hcall, Option.map_eq_map, Option.map_some]
  · split
    · exact hplace
    · exact hplace

theorem Inv.close (h : Inv limits s) :
    Inv limits { s with closed := true, closings := s.closings ++ [.admission] } := by
  have hmem : ∀ closing, closing ∈ s.closings ++ [.admission] →
      closing ∈ s.closings ∨ closing = .admission := fun closing hin =>
    (List.mem_append.mp hin).imp_right List.mem_singleton.mp
  have hremoving : Cache.removing
      { s with closed := true, closings := s.closings ++ [.admission] } = s.removing := by
    funext e
    simp [Cache.removing]
  exact {
    core := by
      rw [hremoving]
      exact h.core.frame rfl rfl rfl rfl rfl
    distinct := h.distinct
    admitting := h.admitting
    ready := fun action haction => (h.ready action haction).frame (Nat.le_refl _) rfl id
    drained := fun closing hin => by
      rcases hmem closing hin with hold | hnew
      · exact h.drained closing hold
      · exact .inl hnew
    closed := fun _ => rfl }

theorem Inv.step (h : Inv limits s) (label : Label) : Inv limits (step limits s label) := by
  cases label with
  | clock now =>
      exact h.outside (h.core.frame rfl rfl rfl rfl rfl) rfl rfl
        (fun _ call hcall hplace => ⟨call, hcall, hplace⟩) rfl rfl
        (Nat.le_refl _) rfl rfl
  | call request aborted => exact h.call
  | abort i => exact h.abort
  | exclusive answer => exact h.resumeExclusive
  | resume i answer =>
      dsimp only [Pluton.SnapshotIndex.step]
      split
      · exact h
      · next call hcall => exact h.resumeCall hcall
  | build e answer =>
      dsimp only [Pluton.SnapshotIndex.step]
      split
      · exact h
      · next entry hentry => exact h.resumeBuild hentry
  | close => exact h.close
  | closing c answer =>
      dsimp only [Pluton.SnapshotIndex.step]
      split
      · exact h
      · next closing hclosing => exact h.resumeClosing hclosing

theorem Inv.start (limits : Limits) (now : Nat) : Inv limits { now := now } := by
  have hremoving : ∀ e, ¬ Cache.removing { now := now } e := by
    rintro e (⟨action, haction, -⟩ | ⟨rest, hmem⟩)
    · cases haction
    · cases hmem
  exact {
    core := {
      fits := fun e entry hentry => absurd hentry (by simp)
      gone := fun e entry hentry => absurd hentry (by simp)
      dying := fun e hdying => absurd hdying (hremoving e)
      held := fun call hcall => absurd hcall List.not_mem_nil
      reads := fun call hcall => absurd hcall List.not_mem_nil
      keys := List.nodup_nil
      named := fun held hheld => absurd hheld List.not_mem_nil
      size := Nat.zero_le _
      builds := rfl
      limit := Nat.zero_le _
      fresh := fun _ => rfl }
    distinct := List.nodup_nil
    admitting := fun j hj => absurd hj List.not_mem_nil
    ready := fun action haction => absurd haction (by simp)
    drained := fun closing hclosing => absurd hclosing List.not_mem_nil
    closed := fun hne => absurd rfl hne }

theorem Inv.after (h : Inv limits s) (labels : List Label) :
    Inv limits (s.after limits labels) := by
  induction labels generalizing s with
  | nil => exact h
  | cons label labels ih => exact ih (h.step label)

end

/-- In every state that a run reaches: the map and the unsettled builds are within their
limits; an entry counts the calls between its lease and its release; an index is closed,
or its directory removed by `remove`, only while its build is settled and nothing reads
it; any other removed directory is that of a build that has failed and cleared it itself;
and what a call reads is an index that is not closed. -/
theorem cache_safe (limits : Limits) (now : Nat) (labels : List Label) :
    let s := Cache.after limits { now := now } labels
    s.entries.length ≤ limits.maxIndexes ∧
    (s.heap.countP fun entry => !entry.settled) ≤ limits.maxBuilds ∧
    (∀ (e : Nat) (entry : Entry), s.heap[e]? = some entry →
      entry.readers = (s.calls.countP fun call => call.place.holds e) ∧
      (entry.closed = true ∨ entry.directory = .removing ∨ entry.directory = .removed →
        entry.readers = 0 ∧ entry.settled = true) ∧
      (entry.directory = .clearing ∨ entry.directory = .cleared → entry.build.fails = true)) ∧
    ∀ call ∈ s.calls, ∀ e, call.place = .consuming e →
      ∃ entry, s.heap[e]? = some entry ∧ entry.build = .built ∧ entry.index = true ∧
        entry.closed = false := by
  intro s
  have h : Inv limits s := (Inv.start limits now).after labels
  refine ⟨h.core.size, h.core.builds ▸ h.core.limit, fun e entry hentry => ?_,
    fun call hcall e hplace => ?_⟩
  · have hfits := h.core.fits e entry hentry
    refine ⟨hfits.readers, fun hgone => ?_, hfits.cleared⟩
    have hunused : entry.gone = true := by simpa [Entry.gone, or_assoc] using hgone
    exact (Entry.unused_iff.mp (hfits.gone hunused).1).symm
  · obtain ⟨entry, hentry, hbuilt⟩ := h.core.reads call hcall e (.inl hplace)
    have hfits := h.core.fits e entry hentry
    have hholds : call.place.holds e = true := by simp [hplace, Place.holds]
    -- The reader itself is counted, so the index is not closed.
    have hopen : entry.closed = false := by
      cases hclosed : entry.closed with
      | false => rfl
      | true =>
          have hzero := (Entry.unused_iff.mp (hfits.gone (by simp [Entry.gone, hclosed])).1).2
          have hpos : 0 < s.holders e := List.countP_pos_iff.mpr ⟨call, hcall, hholds⟩
          rw [← hfits.readers, hzero] at hpos
          cases hpos
    refine ⟨entry, hentry, hbuilt, (hfits.indexed hbuilt).resolve_right fun hclosed => ?_, hopen⟩
    rw [hopen] at hclosed
    cases hclosed

namespace Clearing

def key : String := "0123456789abcdef0123456789abcdef0123456789abcdef0123456789abcdef"

def limits : Limits := ⟨8192, 2, 1000, 1⟩

def space : Answer := { available := 2 ^ 30 }

/-- A call builds an index, up to the directory of the build. -/
def building : List Label :=
  [.call (.use key) false, .exclusive space, .exclusive space, .exclusive space, .exclusive space,
    .build 0 (.returned (2 ^ 30))]

/-- The build fails: it clears its directory while its caller waits for it. -/
theorem directory_cleared_early :
    (Cache.after limits { now := 0 } (building ++ [.build 0 (.threw .other false false)])).heap.any
      (fun entry =>
        entry.directory == .clearing && entry.readers == 1 && !entry.settled) = true := by
  decide +kernel

end Clearing

end Pluton.SnapshotIndex
