-- SUMMARY: When the cancellation of one caller of the index cache reaches another.
import Pluton.SnapshotIndex.Safety
import Pluton.Run

/-!
# Cancellation

The build of an entry is shared by its callers. The last of them that gives it up aborts
it, and until it has settled a new caller may still lease the entry: it then fails with
the cancellation of the other. `not_contagious` is that this is the only way.
-/
namespace Pluton.SnapshotIndex

/-- The build ends, or has ended, with a cancellation. -/
def Build.cancels : Build → Bool
  | .clearing error | .failed error => error.cancels
  | _ => false

/-- The build has an index, or an error of its own. -/
def Build.spared : Build → Bool
  | .built => true
  | .clearing error | .failed error => !error.cancels
  | _ => false

/-- The build was aborted and is to be cancelled, and the entry cannot be replaced yet. -/
def Entry.doomed (entry : Entry) : Bool := entry.aborted && !entry.unused && !entry.build.spared

/-- A build is cancelled only when its own signal is aborted. -/
def cooperative (s : Cache) : Label → Bool
  | .build e (.threw thrown sized low) =>
      !(rethrown sized low thrown).cancels || s.heap[e]?.all Entry.aborted
  | _ => true

/-- When a call of `use` looks up its key, the entry that it finds is not doomed. -/
def clear (s : Cache) : Label → Bool
  | .exclusive _ =>
      match s.exclusive with
      | some ⟨i, .next .expired⟩ =>
          match s.calls[i]? with
          | some ⟨.use key, _, _⟩ => (s.get key).all fun held => !held.2.doomed
          | _ => true
      | _ => true
  | _ => true

/-! ## The invariant -/

structure Entry.Fair (entry : Entry) : Prop where
  aborted : entry.build.cancels = true → entry.aborted = true
  error : ∀ error, entry.error = some error → error.cancels = true → entry.build = .failed error
  failed : ∀ error, entry.build = .failed error → entry.error.isSome = true

/-- Whoever holds the entry will not be cancelled by it. -/
def Entry.Safe (entry : Entry) : Prop := entry.aborted = false ∨ entry.build.spared = true

/-- What holds of a call of `use`. -/
structure Call.Fair (heap : List Entry) (call : Call) : Prop where
  safe : ∀ (e : Nat) (entry : Entry), call.place.holds e = true → heap[e]? = some entry → entry.Safe
  settling : ∀ e result, call.place = .settling e result → call.aborted = true
  failed : ∀ error, call.place = .ended (.failed error) → call.aborted = false →
    error.cancels = false

structure Fair (s : Cache) : Prop where
  entries : ∀ (e : Nat) (entry : Entry), s.heap[e]? = some entry → entry.Fair
  calls : ∀ call ∈ s.calls, call.request.isUse = true → call.Fair s.heap
  closings : s.closings = []

section

variable {limits : Limits} {s : Cache} {i e : Nat}

theorem Call.Fair.of_heap {heap heap' : List Entry} {call : Call} (h : call.Fair heap)
    (hsafe : ∀ (e : Nat) (entry : Entry), call.place.holds e = true →
      heap'[e]? = some entry → entry.Safe) :
    call.Fair heap' :=
  ⟨hsafe, h.settling, h.failed⟩

theorem Call.Fair.ended {heap : List Entry} {call : Call} {result : Result}
    (hresult : ∀ error, result = .failed error → call.aborted = false → error.cancels = false) :
    Call.Fair heap { call with place := .ended result } where
  safe _ _ hholds := by cases hholds
  settling _ _ heq := by cases heq
  failed error heq := by
    cases heq
    exact hresult error rfl

/-- Whoever holds that entry will not be cancelled by it. -/
def Cache.SafeAt (s : Cache) (e : Nat) : Prop := ∀ entry, s.heap[e]? = some entry → entry.Safe

theorem Call.Fair.holding {call : Call} {place : Place} (hholds : ∀ f, place.holds f = true → f = e)
    (hsettling : ∀ f result, place ≠ .settling f result) (hended : ∀ result, place ≠ .ended result)
    (hsafe : s.SafeAt e) :
    Call.Fair s.heap { call with place := place } where
  safe f entry hf hentry := hsafe entry (hholds f hf ▸ hentry)
  settling f result heq := absurd heq (hsettling f result)
  failed _ heq := absurd heq (hended _)

theorem Cache.SafeAt.amend {set : Entry → Entry} {f : Nat} (h : s.SafeAt f)
    (haborted : ∀ entry, (set entry).aborted = entry.aborted)
    (hbuild : ∀ entry, (set entry).build = entry.build) : (s.amend e set).SafeAt f := by
  intro entry hentry
  obtain ⟨old, hold, rfl⟩ := Table.exists_of_modify hentry
  split
  · unfold Entry.Safe
    rw [haborted, hbuild]
    exact h old hold
  · exact h old hold

namespace Fair

theorem frame {s' : Cache} (h : Fair s) (hheap : s'.heap = s.heap) (hcalls : s'.calls = s.calls)
    (hclosings : s'.closings = s.closings) : Fair s' where
  entries := by rw [hheap]; exact h.entries
  calls := by rw [hheap, hcalls]; exact h.calls
  closings := hclosings.trans h.closings

variable {set : Entry → Entry} {closes : Bool} {entry : Entry}

/-- A change of one entry that endangers no caller. -/
theorem amend (h : Fair s)
    (hset : ∀ entry, s.heap[e]? = some entry → entry.Fair →
      (entry.Safe → (set entry).Safe) ∧ (set entry).Fair) :
    Fair (s.amend e set) where
  entries f entry hentry := by
    obtain ⟨old, hold, rfl⟩ := Table.exists_of_modify hentry
    split
    · next heq =>
        subst heq
        exact (hset old hold (h.entries e old hold)).2
    · exact h.entries f old hold
  calls call hcall huse := by
    refine (h.calls call hcall huse).of_heap fun f entry' hholds hentry' => ?_
    obtain ⟨old, hold, rfl⟩ := Table.exists_of_modify hentry'
    have hsafe := (h.calls call hcall huse).safe f old hholds hold
    split
    · next heq =>
        subst heq
        exact (hset old hold (h.entries e old hold)).1 hsafe
    · exact hsafe
  closings := h.closings

/-- A change that leaves the build, its signal and its error alone. -/
theorem amend_plain (h : Fair s) (haborted : ∀ entry, (set entry).aborted = entry.aborted)
    (hbuild : ∀ entry, (set entry).build = entry.build)
    (herror : ∀ entry, (set entry).error = entry.error) :
    Fair (s.amend e set) := by
  refine h.amend fun entry _ hfair =>
    ⟨fun hsafe => ?_, ⟨fun hcancels => ?_, fun error => ?_, fun error => ?_⟩⟩
  · unfold Entry.Safe
    rw [haborted, hbuild]
    exact hsafe
  · rw [hbuild] at hcancels
    rw [haborted]
    exact hfair.aborted hcancels
  · rw [herror, hbuild]
    exact hfair.error error
  · rw [herror, hbuild]
    exact hfair.failed error

theorem touch (h : Fair s) : Fair (s.touch e) := by
  have hamend : Fair (s.amend e fun entry =>
      { entry with updated := s.now, used := s.sequence + 1 }) :=
    h.amend_plain (fun _ => rfl) (fun _ => rfl) fun _ => rfl
  exact hamend.frame rfl rfl rfl

theorem setPlace {place : Place} (h : Fair s)
    (hplace : ∀ call : Call, s.calls[i]? = some call → call.request.isUse = true →
      Call.Fair s.heap { call with place := place }) :
    Fair (s.setPlace i place) where
  entries := h.entries
  calls call hcall huse := by
    obtain ⟨j, hj⟩ := List.mem_iff_getElem?.mp hcall
    obtain ⟨old, hold, rfl⟩ := Table.exists_of_modify hj
    split
    · next heq =>
        subst heq
        rw [if_pos rfl] at huse
        exact hplace old hold huse
    · next hne =>
        rw [if_neg hne] at huse
        exact h.calls old (List.mem_of_getElem? hold) huse
  closings := h.closings

/-! ## Removal -/

theorem delete {key : String} (h : Fair s) : Fair (s.delete key e) := by
  unfold Cache.delete
  split
  · exact h.frame rfl rfl rfl
  · exact h

theorem cleanupFailed (h : Fair s) : Fair (s.cleanupFailed e).1 := by
  refine h.amend fun entry _ hfair =>
    ⟨id, hfair.aborted, fun error herror hcancels => ?_, fun _ _ => rfl⟩
  cases herror
  cases hcancels

/-- What is left of a removal: an error of it is not a cancellation. -/
def Leaves (removal : Cache × Removal) : Prop :=
  Fair removal.1 ∧ ∀ error, removal.2 = .failed error → error.cancels = false

theorem remove (h : Fair s) : Leaves (s.remove e closes) := by
  unfold Cache.remove
  split
  · exact ⟨h, nofun⟩
  · split
    · refine ⟨h, fun error heq => ?_⟩
      cases heq
      rfl
    · split
      · refine ⟨h.cleanupFailed, fun error heq => ?_⟩
        cases heq
        rfl
      · split
        · have hamend : Fair (s.amend e Entry.closeIndex) :=
            h.amend_plain (fun _ => rfl) (fun _ => rfl) fun _ => rfl
          exact ⟨hamend.delete, nofun⟩
        · exact ⟨h.amend_plain (fun _ => rfl) (fun _ => rfl) fun _ => rfl, nofun⟩

theorem removed {returned : Bool} (h : Fair s) : Leaves (s.removed e returned) := by
  unfold Cache.removed
  split
  · exact ⟨h, nofun⟩
  · split
    · have hamend : Fair (s.amend e fun row => { row with directory := .removed }) :=
        h.amend_plain (fun _ => rfl) (fun _ => rfl) fun _ => rfl
      exact ⟨hamend.delete, nofun⟩
    · refine ⟨h.cleanupFailed, fun error heq => ?_⟩
      cases heq
      rfl

/-! ## The section -/

theorem turn {turn : Turn} (h : Fair s) : Fair (s.turn i turn) := h.frame rfl rfl rfl

theorem finish {place : Place} (h : Fair s)
    (hplace : ∀ call : Call, s.calls[i]? = some call → call.request.isUse = true →
      Call.Fair s.heap { call with place := place }) :
    Fair (s.finish i place) :=
  (h.setPlace hplace).frame rfl rfl rfl

theorem ends (h : Fair s) : Fair (s.finish i (.ended .ok)) :=
  h.finish fun _ _ _ => .ended nofun

theorem refuse {error : AppError} (h : Fair s)
    (herror : ∀ call : Call, s.calls[i]? = some call → call.request.isUse = true →
      error.cancels = false) :
    Fair (s.refuse i error) := by
  have hended : Fair (s.finish i (.ended (.failed error))) := by
    refine h.finish fun call hcall huse => .ended fun error' heq _ => ?_
    cases heq
    exact herror call hcall huse
  exact hended

theorem goOn {next : Next} {removal : Cache × Removal} (h : Leaves removal) :
    Fair (Cache.goOn i e next removal) := by
  obtain ⟨s', removal⟩ := removal
  cases removal with
  | waiting => exact h.1.turn
  | done => exact h.1.turn
  | failed error => exact h.1.refuse fun _ _ _ => h.2 error rfl

theorem expire (rest : List Nat) (h : Fair s) :
    Fair (s.expire limits i closes rest) := by
  induction rest with
  | nil => exact h.turn
  | cons e rest ih =>
      rw [Cache.expire]
      split
      · exact goOn h.remove
      · exact ih

theorem admitEntry (h : Fair s) : Fair (s.admitEntry limits i closes) := by
  unfold Cache.admitEntry
  split
  · exact h.refuse fun _ _ _ => rfl
  · split
    · split
      · exact h.refuse fun _ _ _ => rfl
      · exact goOn h.remove
    · exact h.turn

theorem lease (h : Fair s) (haborted : ∀ entry, (set entry).aborted = entry.aborted)
    (hbuild : ∀ entry, (set entry).build = entry.build)
    (herror : ∀ entry, (set entry).error = entry.error)
    (hsafe : ∀ call : Call, s.calls[i]? = some call → call.request.isUse = true → s.SafeAt e) :
    Fair ((s.amend e set).finish i (.leased e)) := by
  refine (h.amend_plain haborted hbuild herror).finish fun call hcall huse => ?_
  exact .holding (fun f hholds => (eq_of_beq hholds).symm) nofun nofun
    ((hsafe call hcall huse).amend haborted hbuild)

variable {request : Request}

theorem grant (h : Fair s) (hsafe : request.isUse = true → s.SafeAt e) :
    Fair (s.grant i e request) := by
  have hamend : Fair (s.amend e fun entry =>
      { entry with background := entry.background || request.background }) :=
    h.amend_plain (fun _ => rfl) (fun _ => rfl) fun _ => rfl
  unfold Cache.grant
  dsimp only
  split
  · next huse =>
      have hamended : Cache.SafeAt (s.amend e fun entry =>
          { entry with background := entry.background || request.background }) e :=
        (hsafe huse).amend (fun _ => rfl) fun _ => rfl
      refine lease hamend.touch (fun _ => rfl) (fun _ => rfl) (fun _ => rfl) fun _ _ _ => ?_
      exact hamended.amend (fun _ => rfl) fun _ => rfl
  · exact hamend.touch.ends

/-- An entry that is not doomed, and has no error, is safe. -/
theorem safe_of_find (h : Fair s) (hinv : Inv limits s) (hentry : s.heap[e]? = some entry)
    (hdoomed : entry.doomed = false) (herror : entry.error = none) : s.SafeAt e := by
  intro row hrow
  cases hrow.symm.trans hentry
  cases haborted : entry.aborted with
  | false => exact .inl haborted
  | true =>
      refine .inr ?_
      cases hspared : entry.build.spared with
      | true => rfl
      | false =>
          -- It has settled, so it would have failed.
          have hunused : entry.unused = true := by
            simpa [Entry.doomed, haborted, hspared] using hdoomed
          have hfinished := (hinv.core.fits e entry hentry).finished (Entry.unused_iff.mp hunused).1
          cases hbuild : entry.build with
          | built =>
              rw [hbuild] at hspared
              cases hspared
          | failed error =>
              have hsome := (h.entries e entry hentry).failed error hbuild
              rw [herror] at hsome
              cases hsome
          | preparing | working | clearing error =>
              rw [hbuild] at hfinished
              cases hfinished

/-- The lookup of `acquire`; for `use` it has to find an entry that is not doomed. -/
theorem find {key : String} (h : Fair s) (hinv : Inv limits s)
    (hrequest : ∀ call : Call, s.calls[i]? = some call → call.request = request)
    (hclear : request.isUse = true → ∀ e entry, s.get key = some (e, entry) →
      entry.doomed = false) :
    Fair (s.find limits i key request closes) := by
  unfold Cache.find
  split
  · exact h.admitEntry
  · next e entry hget =>
      obtain ⟨hentry, -⟩ := get_spec hget
      split
      · exact goOn h.remove
      · next hkept =>
          split
          · next error herror =>
              refine h.refuse fun call hcall huse => ?_
              rw [hrequest call hcall] at huse
              cases hcancels : error.cancels with
              | false => rfl
              | true =>
                  have hfair := h.entries e entry hentry
                  have hbuild := hfair.error error herror hcancels
                  have haborted := hfair.aborted (by rw [hbuild]; exact hcancels)
                  have hspared : entry.build.spared = false := by
                    simp [hbuild, Build.spared, hcancels]
                  have hdoomed := hclear huse e entry hget
                  simp only [Entry.doomed, haborted, hspared, Bool.not_false,
                    Bool.true_and, Bool.and_true, Bool.not_eq_false'] at hdoomed
                  simp [Entry.retired, herror, hdoomed, huse] at hkept
          · next herror =>
              exact h.grant fun huse => h.safe_of_find hinv hentry (hclear huse e entry hget) herror

theorem create {key generation : String} (h : Fair s)
    (hcalls : ∀ call ∈ s.calls, ∀ e, call.place.holds e = true → e < s.heap.length) :
    Fair (s.create i key request generation) := by
  suffices hmade : ∀ entry : Entry, entry.Fair → entry.aborted = false →
      Fair (({ s with heap := s.heap ++ [entry], builds := s.builds + 1,
                      sequence := s.sequence + 1 }.put key
        s.heap.length).grant i s.heap.length request) from
    hmade _ ⟨nofun, nofun, nofun⟩ rfl
  intro entry hfair haborted
  have hfresh : Fair { s with heap := s.heap ++ [entry], builds := s.builds + 1,
                              sequence := s.sequence + 1 } := {
    entries := fun e row hrow => by
      rcases List.mem_append.mp (List.mem_of_getElem? hrow) with hold | hnew
      · obtain ⟨f, hf⟩ := List.mem_iff_getElem?.mp hold
        exact h.entries f row hf
      · exact List.mem_singleton.mp hnew ▸ hfair
    calls := fun call hcall huse => by
      refine (h.calls call hcall huse).of_heap fun e row hholds hrow => ?_
      have hlt := hcalls call hcall e hholds
      exact (h.calls call hcall huse).safe e row hholds
        ((List.getElem?_append_left hlt).symm.trans hrow)
    closings := h.closings }
  have hput : Fair ({ s with heap := s.heap ++ [entry], builds := s.builds + 1,
                             sequence := s.sequence + 1 }.put key
      s.heap.length) := by
    rw [put_eq]
    exact hfresh.frame rfl rfl rfl
  refine hput.grant fun _ row hrow => .inl ?_
  rw [put_eq] at hrow
  have hsome : some row = some entry := hrow.symm.trans List.getElem?_concat_length
  cases hsome
  exact haborted

theorem leaseReady {key generation : String} (h : Fair s)
    (hrequest : ∀ call : Call, s.calls[i]? = some call → call.request.isUse = false) :
    Fair (s.leaseReady i key generation) := by
  have hnone : ∀ call : Call, s.calls[i]? = some call → call.request.isUse = true →
      False := fun call hcall huse => by
    rw [hrequest call hcall] at huse
    cases huse
  unfold Cache.leaseReady
  split
  · exact h.refuse fun _ _ _ => rfl
  · split
    · have hframe : Fair { s with sequence := s.sequence + 1 } := h.frame rfl rfl rfl
      exact hframe.lease (fun _ => rfl) (fun _ => rfl) (fun _ => rfl) fun call hcall huse =>
        (hnone call hcall huse).elim
    · exact h.refuse fun _ _ _ => rfl

theorem measured {answer : Answer} (h : Fair s) (hinv : Inv limits s) :
    Fair (s.measured limits i request answer) := by
  unfold Cache.measured
  split
  · exact h.refuse fun _ _ _ => rfl
  · split
    · split
      · exact h.refuse fun _ _ _ => rfl
      · exact goOn h.remove
    · split
      · exact h.create hinv.core.held
      · exact h.create hinv.core.held
      · exact h

theorem enter (h : Fair s) :
    Fair (s.enter limits i request closes) := by
  unfold Cache.enter
  split
  · split
    · exact h.expire _
    · exact h.refuse fun _ _ _ => rfl
  · split
    · exact h.expire _
    · exact h.refuse fun _ _ _ => rfl
  · exact h.expire _
  · exact h.expire _
  · split
    · exact h.expire _
    · split
      · exact goOn h.remove
      · exact h.expire _

theorem sweep (h : Fair s) : Fair s.sweep where
  entries e entry hentry := by
    obtain ⟨old, hold, rfl⟩ := Option.map_eq_some_iff.mp (List.getElem?_map ▸ hentry)
    have hfair := h.entries e old hold
    exact ⟨hfair.aborted, hfair.error, hfair.failed⟩
  calls call hcall huse := by
    refine (h.calls call hcall huse).of_heap fun e entry hholds hentry => ?_
    obtain ⟨old, hold, rfl⟩ := Option.map_eq_some_iff.mp (List.getElem?_map ▸ hentry)
    exact (h.calls call hcall huse).safe e old hholds hold
  closings := h.closings

theorem resumeExclusive {answer : Answer} (h : Fair s) (hinv : Inv limits s)
    (hclear : clear s (.exclusive answer) = true) :
    Fair (s.resumeExclusive limits answer) := by
  unfold Cache.resumeExclusive
  split
  · next action haction =>
      obtain ⟨i, turn⟩ := action
      split
      · exact h
      · next call hcall =>
          -- The call at this index is the one that was just read.
          have hrequest : ∀ other : Call, s.calls[i]? = some other →
              other.request = call.request := by
            intro other hother
            cases hcall.symm.trans hother
            rfl
          cases turn with
          | next after =>
              cases after with
              | expire rest => exact h.expire rest
              | expireAll => exact h.expire _
              | expired =>
                  obtain ⟨request, aborted, place⟩ := call
                  cases request with
                  | start key background => exact h.find hinv hrequest nofun
                  | use key =>
                      refine h.find hinv hrequest fun _ e entry hget => ?_
                      -- `clear` says that no entry of this key is doomed when it is joined.
                      have hall : (s.get key).all (fun held => !held.2.doomed) = true := by
                        simpa [clear, haction, hcall] using hclear
                      simpa [hget] using hall
                  | useReady key generation =>
                      exact h.leaseReady fun other hother => by rw [hrequest other hother]; rfl
                  | retry key => exact h.ends
                  | expire => exact h.ends
              | admitEntry => exact h.admitEntry
              | initializeRoot => exact h.turn
              | measure => exact h.turn
          | removing e after => exact goOn h.removed
          | initializing =>
              rw [Cache.resumeAction]
              split
              · exact h.turn
              · split
                · exact h.sweep.frame rfl rfl rfl
                -- A sweep that failed refuses the call.
                · exact h.sweep.refuse fun _ _ _ => rfl
          | measuring => exact h.measured hinv
  · split
    · exact h
    · split
      · exact h
      · have hframe : ∀ rest, Fair { s with admission := rest } := fun _ => h.frame rfl rfl rfl
        exact (hframe _).enter

/-! ## Calls -/

theorem wake {idle : Option Nat} (h : Fair s) : Fair (s.wake idle) := by
  cases idle with
  | none => exact h
  | some c =>
      have hnil : (s.wake (some c)).closings = s.closings := by
        simp only [Cache.wake, h.closings, List.modify_nil]
      exact h.frame rfl rfl hnil

/-- The last reader aborts the build, and no other call holds it. -/
theorem abortBuild {call : Call} {result : Result} (h : Fair s) (hcall : s.calls[i]? = some call)
    (haborted : call.aborted = true)
    (hlast : (s.setPlace i (.settling e result)).holders e = 0) :
    Fair ((s.amend e fun row => { row with aborted := true }).setPlace i (.settling e result)) where
  entries f entry hentry := by
    obtain ⟨old, hold, rfl⟩ := Table.exists_of_modify hentry
    have hfair := h.entries f old hold
    split
    · exact ⟨fun _ => rfl, hfair.error, hfair.failed⟩
    · exact hfair
  calls other hother huse := by
    have hfree : other.place.holds e = false :=
      Bool.eq_false_iff.mpr (List.countP_eq_zero.mp hlast other hother)
    have hkeep : ∀ old, old ∈ s.calls → old.request.isUse = true → (old.place.holds e = false) →
        Call.Fair ((s.amend e fun row => { row with aborted := true }).setPlace i
          (.settling e result)).heap old := by
      intro old hold huse hfree
      refine (h.calls old hold huse).of_heap fun f entry hholds hentry => ?_
      obtain ⟨row, hrow, rfl⟩ := Table.exists_of_modify hentry
      split
      · next heq =>
          subst heq
          rw [hfree] at hholds
          cases hholds
      · exact (h.calls old hold huse).safe f row hholds hrow
    rcases mem_setPlace (s :=
      s.amend e fun row => { row with aborted := true }) hcall hother with hold | rfl
    · exact hkeep other hold huse hfree
    · exact ⟨fun _ _ hholds => (by cases hholds), fun _ _ _ => haborted,
        fun _ heq => (by cases heq)⟩
  closings := h.closings

theorem release {call : Call} {result : Result} (h : Fair s) (hinv : Inv limits s)
    (hcall : s.calls[i]? = some call) (hholds : ∀ f, call.place.holds f = (e == f))
    (hresult : call.request.isUse = true → ∀ error, result = .failed error → call.aborted = false →
      error.cancels = false) :
    Fair (s.release i e call result) := by
  unfold Cache.release
  split
  · exact h
  · next entry hentry =>
      have hamend : Fair (s.amend e fun row => { row with readers := row.readers - 1 }) :=
        h.amend_plain (fun _ => rfl) (fun _ => rfl) fun _ => rfl
      have hreleased := hamend.touch (e := e)
      have hcalls : ((s.amend e fun row => { row with readers := row.readers - 1 }).touch e).calls =
          s.calls := rfl
      dsimp only
      generalize (s.amend e fun row => { row with readers := row.readers - 1 }).touch e =
        released at hreleased hcalls
      have hwoken : Fair (if entry.readers - 1 == 0 then released.wake entry.idle
          else released) := by
        split
        · exact hreleased.wake
        · exact hreleased
      have hwakes : (if entry.readers - 1 == 0 then released.wake entry.idle else released).calls =
          s.calls := by
        split
        · rw [← hcalls]
          cases entry.idle <;> rfl
        · exact hcalls
      generalize (if entry.readers - 1 == 0 then released.wake entry.idle else released) =
        woken at hwoken hwakes
      have hcall' : woken.calls[i]? = some call := hwakes ▸ hcall
      split
      · next hlast =>
          simp only [Bool.and_eq_true, beq_iff_eq] at hlast
          refine hwoken.abortBuild hcall' hlast.1.2 ?_
          -- This call was the only one that held the entry.
          have hcount := holders_setPlace (e := e) (.settling e result) hcall
          rw [hholds e, ← (hinv.core.fits e entry hentry).readers] at hcount
          simp only [beq_self_eq_true, if_true, Place.holds, Bool.false_eq_true, if_false,
            Nat.add_zero] at hcount
          have hzero : (s.setPlace i (.settling e result)).holders e = 0 :=
            (Nat.eq_sub_of_add_eq hcount).trans hlast.1.1.1.1
          unfold Cache.holders Cache.setPlace at hzero ⊢
          rw [hwakes]
          exact hzero
      · refine hwoken.setPlace fun other hother huse => .ended fun error heq => ?_
        cases hcall'.symm.trans hother
        exact hresult huse error heq

theorem resumeCall {call : Call} {answer : Answer} (h : Fair s) (hinv : Inv limits s)
    (hcall : s.calls[i]? = some call) :
    Fair (s.resumeCall i call answer) := by
  have hmem : call ∈ s.calls := List.mem_of_getElem? hcall
  have hfair := h.calls call hmem
  have hmoves : ∀ {e place}, call.place.holds e = true → (∀ f, place.holds f = true → f = e) →
      (∀ f result, place ≠ .settling f result) → (∀ result, place ≠ .ended result) →
      Fair (s.setPlace i place) := by
    intro e place hheld hholds hsettling hended
    refine h.setPlace fun other hother huse => ?_
    cases hcall.symm.trans hother
    exact .holding hholds hsettling hended fun entry hentry =>
      (hfair huse).safe e entry hheld hentry
  unfold Cache.resumeCall
  cases hplace : call.place with
  | admitting => exact h
  | ended result => exact h
  | leased e =>
      have hheld : call.place.holds e = true := by simp [hplace, Place.holds]
      dsimp only
      split
      · exact hmoves hheld (fun f hf => (eq_of_beq hf).symm) (by simp) (by simp)
      · exact hmoves hheld (fun f hf => (eq_of_beq hf).symm) (by simp) (by simp)
  | waiting e =>
      have hheld : ∀ f, call.place.holds f = (e == f) := fun f => by rw [hplace]; rfl
      have hself : call.place.holds e = true := by rw [hheld, beq_self_eq_true]
      dsimp only
      split
      · exact h
      · next entry hentry =>
          have hcancelled : call.aborted = true →
              Fair (s.release i e call (.failed .cancelled)) := fun haborted =>
            h.release hinv hcall hheld fun _ _ _ hnot => absurd (haborted.symm.trans hnot) (by simp)
          split
          · next hown => exact hcancelled (Bool.and_eq_true_iff.mp hown).1
          · split
            · exact h
            · split
              · split
                · next haborted => exact hcancelled haborted
                · exact hmoves hself (fun f hf => (eq_of_beq hf).symm) (by simp) (by simp)
              · next error hbuild =>
                  -- the build failed, and not by being aborted for another call
                  refine h.release hinv hcall hheld fun huse error' heq _ => ?_
                  cases heq
                  cases hcancels : error.cancels with
                  | false => rfl
                  | true =>
                      have haborted :=
                        (h.entries e entry hentry).aborted (by rw [hbuild]; exact hcancels)
                      rcases (hfair huse).safe e entry hself hentry with hnot | hspared
                      · rw [haborted] at hnot
                        cases hnot
                      · simp [hbuild, Build.spared, hcancels] at hspared
              · exact h
  | consuming e =>
      refine h.release hinv hcall (fun f => by rw [hplace]; rfl) fun _ error heq => ?_
      split at heq <;> cases heq
  | settling e result =>
      dsimp only
      split
      · refine h.setPlace fun other hother huse => .ended fun error _ hnot => ?_
        cases hcall.symm.trans hother
        have haborted := (hfair huse).settling e result hplace
        rw [haborted] at hnot
        cases hnot
      · exact h

theorem append {call : Call} (h : Fair s)
    (hnew : call.request.isUse = true → Call.Fair s.heap call) :
    Fair { s with calls := s.calls ++ [call] } where
  entries := h.entries
  calls other hother huse := by
    rcases List.mem_append.mp hother with hold | hin
    · exact h.calls other hold huse
    · cases List.mem_singleton.mp hin
      exact hnew huse
  closings := h.closings

theorem call {aborted : Bool} (h : Fair s) : Fair (s.call request aborted) := by
  have hended : ∀ error : AppError, (request.isUse = true → aborted = false →
      error.cancels = false) →
      Fair { s with calls := s.calls ++ [⟨request, aborted, .ended (.failed error)⟩] } := by
    intro error herror
    refine h.append fun huse => ⟨fun _ _ hholds => (by cases hholds), fun _ _ heq => (by cases heq),
      fun error' heq hnot => ?_⟩
    cases heq
    exact herror huse hnot
  unfold Cache.call
  split
  · next hown =>
      refine hended .cancelled fun _ hnot => ?_
      rw [(Bool.and_eq_true_iff.mp hown).2] at hnot
      cases hnot
  · split
    · exact hended .unavailable fun _ _ => rfl
    · split
      · exact hended (.limit .admissionBusy) fun _ _ => rfl
      · have hadmitting : Fair { s with calls := s.calls ++ [⟨request, aborted, .admitting⟩] } :=
          h.append fun _ => ⟨fun _ _ hholds => (by cases hholds), fun _ _ heq => (by cases heq),
            fun _ heq => (by cases heq)⟩
        exact hadmitting.frame rfl rfl rfl

theorem abort (h : Fair s) :
    Fair { s with calls := s.calls.modify i fun call => { call with aborted := true } } where
  entries := h.entries
  calls call hcall huse := by
    obtain ⟨j, hj⟩ := List.mem_iff_getElem?.mp hcall
    obtain ⟨old, hold, rfl⟩ := Table.exists_of_modify hj
    have hfair := h.calls old (List.mem_of_getElem? hold)
    split
    · next heq =>
        rw [if_pos heq] at huse
        exact ⟨(hfair huse).safe, fun _ _ _ => rfl, fun _ _ hnot => (by cases hnot)⟩
    · next hne =>
        rw [if_neg hne] at huse
        exact hfair huse
  closings := h.closings

/-! ## Builds -/

theorem build (h : Fair s) (hentry : s.heap[e]? = some entry)
    (haborted : (set entry).aborted = entry.aborted)
    (hspared : entry.build.spared = true → (set entry).build.spared = true)
    (hfair : entry.Fair → (set entry).Fair) : Fair (s.amend e set) := by
  refine h.amend fun row hrow hold => ?_
  cases hrow.symm.trans hentry
  refine ⟨fun hsafe => ?_, hfair hold⟩
  unfold Entry.Safe
  rw [haborted]
  exact hsafe.imp_right hspared

theorem failBuild {error : AppError} (h : Fair s) (hentry : s.heap[e]? = some entry)
    (hspared : entry.build.spared = true → error.cancels = false)
    (haborted : error.cancels = true → entry.aborted = true) :
    Fair (s.failBuild e error) := by
  refine h.build hentry rfl (fun hs => ?_) fun _ =>
    ⟨haborted, fun error' heq _ => ?_, fun _ _ => rfl⟩
  · simp [Build.spared, hspared hs]
  · cases heq
    rfl

theorem clearBuild {error : AppError} (h : Fair s) (hentry : s.heap[e]? = some entry)
    (hbuild : entry.build = .working) (haborted : error.cancels = true → entry.aborted = true) :
    Fair (s.clearBuild e error) := by
  refine h.build hentry rfl (fun hs => ?_) fun hfair =>
    ⟨haborted, fun error' heq hcancels => ?_, nofun⟩
  · rw [hbuild] at hs
    cases hs
  · have hfailed := hfair.error error' heq hcancels
    rw [hbuild] at hfailed
    cases hfailed

theorem resumeBuild {answer : BuildAnswer} (h : Fair s) (hentry : s.heap[e]? = some entry)
    (hcooperative : cooperative s (.build e answer) = true) :
    Fair (s.resumeBuild limits e entry answer) := by
  -- In a cooperative run a build throws the cancellation only when it was aborted.
  have hthrew : ∀ {thrown sized low}, answer = .threw thrown sized low →
      (rethrown sized low thrown).cancels = true →
      entry.aborted = true := by
    intro thrown sized low heq hcancels
    simpa [cooperative, heq, hcancels, hentry] using hcooperative
  unfold Cache.resumeBuild
  split
  · next available hbuild =>
      split
      · exact h.failBuild hentry (fun _ => rfl) nofun
      · refine h.build hentry rfl (fun hs => ?_) fun hfair =>
          ⟨nofun, fun error heq hcancels => ?_, nofun⟩
        · rw [hbuild] at hs
          cases hs
        · have hfailed := hfair.error error heq hcancels
          rw [hbuild] at hfailed
          cases hfailed
  · next hbuild =>
      refine h.failBuild hentry (fun hs => ?_) (hthrew rfl)
      rw [hbuild] at hs
      cases hs
  · next hbuild =>
      split
      · next haborted => exact h.clearBuild hentry hbuild fun _ => haborted
      · refine h.build hentry rfl (fun _ => rfl) fun hfair =>
          ⟨nofun, fun error heq hcancels => ?_, nofun⟩
        have hfailed := hfair.error error heq hcancels
        rw [hbuild] at hfailed
        cases hfailed
  · next hbuild => exact h.clearBuild hentry hbuild (hthrew rfl)
  · next error _ hbuild =>
      have hcleared : Fair (s.amend e fun row => { row with directory := .cleared }) :=
        h.amend_plain (fun _ => rfl) (fun _ => rfl) fun _ => rfl
      refine hcleared.failBuild (Cache.getElem?_amend hentry) ?_ ?_
      · rw [if_pos rfl]
        intro hs
        have hs' : entry.build.spared = true := hs
        simpa [hbuild, Build.spared] using hs'
      · rw [if_pos rfl]
        exact fun hcancels => (h.entries e entry hentry).aborted (by rw [hbuild]; exact hcancels)
  · exact h.failBuild hentry (fun _ => rfl) nofun
  all_goals
    split
    · exact h
    · have hsettled : Fair (s.amend e fun entry => { entry with settled := true }) :=
        h.amend_plain (fun _ => rfl) (fun _ => rfl) fun _ => rfl
      exact (hsettled.touch (e := e)).frame rfl rfl rfl

/-! ## Runs -/

theorem step (h : Fair s) (hinv : Inv limits s) (label : Label) (hclose : label ≠ .close)
    (hcooperative : cooperative s label = true) (hclear : clear s label = true) :
    Fair (step limits s label) := by
  cases label with
  | clock now => exact h.frame rfl rfl rfl
  | call request aborted => exact h.call
  | abort i => exact h.abort
  | exclusive answer => exact h.resumeExclusive hinv hclear
  | resume i answer =>
      dsimp only [Pluton.SnapshotIndex.step]
      split
      · exact h
      · next call hcall => exact h.resumeCall hinv hcall
  | build e answer =>
      dsimp only [Pluton.SnapshotIndex.step]
      split
      · exact h
      · next entry hentry => exact h.resumeBuild hentry hcooperative
  | close => exact absurd rfl hclose
  | closing c answer =>
      dsimp only [Pluton.SnapshotIndex.step]
      rw [h.closings]
      exact h

end Fair

end

/-- In every run in which the cache is not closed, builds are cancelled only when they
were aborted, and no call of `use` finds a doomed entry under its key: a call of `use`
whose own signal is not aborted does not fail with a cancellation. -/
theorem not_contagious (limits : Limits) (now : Nat) (labels : List Label)
    (hclose : .close ∉ labels)
    (hcooperative : Run.Along (step limits) (fun s label => cooperative s label = true)
      { now := now } labels)
    (hclear : Run.Along (step limits) (fun s label => clear s label = true) { now := now } labels) :
    ∀ call ∈ (Cache.after limits { now := now } labels).calls, call.request.isUse = true →
      call.aborted = false →
      ∀ error, call.place = .ended (.failed error) → error.cancels = false := by
  have hopen : Run.Along (step limits) (fun _ label => label ≠ .close) { now := now } labels :=
    Run.along_of_forall fun label hlabel _ heq => hclose (heq ▸ hlabel)
  have hstart : Fair { now := now } :=
    ⟨fun e entry hentry => absurd hentry (by simp),
      fun call hcall => absurd hcall List.not_mem_nil, rfl⟩
  have hstep : ∀ s label, ((label ≠ .close ∧ cooperative s label = true) ∧ clear s label = true) →
      Inv limits s ∧ Fair s → Inv limits (step limits s label) ∧ Fair (step limits s label) :=
    fun s label hok h => ⟨h.1.step label, h.2.step h.1 label hok.1.1 hok.1.2 hok.2⟩
  have hboth : Inv limits (Cache.after limits { now := now } labels) ∧
      Fair (Cache.after limits { now := now } labels) :=
    Run.Along.invariant hstep ((hopen.and hcooperative).and hclear) ⟨Inv.start limits now, hstart⟩
  exact fun call hcall huse haborted error heq =>
    (hboth.2.calls call hcall huse).failed error heq haborted

namespace Cancelling

open Clearing

/-- The only caller of a build aborts it; once it has settled, another caller builds the
index anew and reads it. -/
def retried : List Label :=
  building ++ [.resume 0 {}, .abort 0, .resume 0 {}, .build 0 (.returned 0), .build 0 (.returned 0),
    .build 0 (.returned 0), .call (.use key) false, .exclusive space, .exclusive space,
    .exclusive space, .exclusive space, .exclusive space, .exclusive space, .exclusive space,
    .build 1 (.returned (2 ^ 30)), .build 1 (.returned 0), .build 1 (.returned 0), .resume 1 {},
    .resume 1 {}, .resume 1 {}]

/-- Another caller comes between the abort and the end of the build. -/
def joined : List Label :=
  building ++ [.resume 0 {}, .abort 0, .resume 0 {}, .call (.use key) false,
    .exclusive space, .exclusive space, .resume 1 {}, .build 0 (.returned 0),
    .build 0 (.returned 0), .build 0 (.returned 0), .resume 1 {}]

theorem retried_not_contagious :
    (∀ call ∈ (Cache.after limits { now := 0 } retried).calls, call.request.isUse = true →
      call.aborted = false →
      ∀ error, call.place = .ended (.failed error) → error.cancels = false) ∧
    (Cache.after limits { now := 0 } retried).calls[1]? =
      some { request := .use key, aborted := false, place := .ended .ok } :=
  ⟨not_contagious limits 0 retried (by decide) (by decide +kernel) (by decide +kernel), by
    decide +kernel⟩

/-- The other caller, whose signal is not aborted, fails with the cancellation, although
nothing closes the cache or cancels the build for another reason. -/
theorem joined_cancelled :
    .close ∉ joined ∧
    Run.Along (step limits) (fun s label => cooperative s label = true) { now := 0 } joined ∧
    (Cache.after limits { now := 0 } joined).calls[1]? =
      some { request := .use key, aborted := false, place := .ended (.failed .cancelled) } := by
  decide +kernel

end Cancelling

end Pluton.SnapshotIndex
