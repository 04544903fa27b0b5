-- SUMMARY: One send in flight, flushes behind all events, and every enqueued event is sent.
import Pluton.ProgressDelivery.Drain

/-!
# No progress is lost

All drains but the last are over, and the last runs exactly while `draining` is set: until its
handler has looked at the pending event once more. The calls of `enqueue` are in the sends and the
pending event one after the other, so a delivery at rest has sent everything.
-/
namespace Pluton.ProgressDelivery

variable {Value : Type}

/-! ## What a send carries -/

def callsOf (event : Option (Pending Value)) : List Nat := event.elim [] Pending.calls

/-- The events of some sends, spread over each other. -/
def mergedOf (events : List (Option (Pending Value))) : OrderedMap Value :=
  OrderedMap.merged (events.filterMap fun event => event.map Pending.event)

/-- The event in flight. -/
def Phase.event : Phase Value → Option (Option (Pending Value))
  | .sending event => some event
  | _ => none

/-- The sends that have succeeded. -/
def State.delivered (s : State Value) : List (Option (Pending Value)) :=
  (s.settled.filter Prod.snd).map Prod.fst

theorem callsOf_spread (pending : Option (Pending Value)) (event : OrderedMap Value) (call : Nat) :
    (spread pending event call).calls = callsOf pending ++ [call] := by
  cases pending with
  | none => rfl
  | some before => rfl

theorem get_mergedOf_append {events : List (Option (Pending Value))}
    {event : Option (Pending Value)} {key : String} :
    (mergedOf (events ++ [event])).get key =
      (event.bind fun pending => pending.event.get key).or ((mergedOf events).get key) := by
  unfold mergedOf
  cases event with
  | none => simp
  | some pending =>
      rw [List.filterMap_append]
      exact OrderedMap.get_merged_append

theorem get_spread (pending : Option (Pending Value)) (event : OrderedMap Value) (call : Nat)
    (key : String) :
    (spread pending event call).event.get key = (event.get key).or (pending.bind fun before =>
      before.event.get key) := by
  cases pending with
  | none => exact OrderedMap.get_spread
  | some before => exact OrderedMap.get_spread

/-! ## The invariant -/

/-- All drains but the one that runs are over. -/
structure Shape (s : State Value) (ended : Nat) (current : Option (Phase Value)) : Prop where
  drains : s.drains = List.replicate ended .closed ++ current.toList
  draining : s.draining = current.map fun _ => ended
  running : ∀ phase ∈ current, phase ≠ .closed

/-- The sends and the pending event carry the calls of `enqueue` in their order. -/
structure Carried (s : State Value) (flight : Option (Option (Pending Value))) : Prop where
  sent : s.sent = s.settled.map Prod.fst ++ flight.toList
  present : ∀ event ∈ s.sent, event.isSome
  calls : (s.sent ++ [s.pending]).flatMap callsOf = List.range s.enqueued.length
  merged : ∀ key, (mergedOf (s.sent ++ [s.pending])).get key =
    (OrderedMap.merged s.enqueued).get key
  flushes : ∀ flush ∈ s.flushes, flush.enqueued ≤ s.enqueued.length ∧
    (flush.awaits = none → ∀ call < flush.enqueued, ∃ send ∈ s.settled, call ∈ callsOf send.1)

/-- What holds between two steps. -/
structure Good (s : State Value) (ended : Nat) (current : Option (Phase Value)) : Prop where
  shape : Shape s ended current
  carried : Carried s (current.bind Phase.event)
  pending : s.pending.isSome → current.isSome
  waiting : ∀ phase ∈ current, phase = .waiting ∨ phase = .woken → s.pending.isSome

def Kept (s : State Value) : Prop := ∃ ended current, Good s ended current

section
variable {s : State Value} {ended id : Nat} {current : Option (Phase Value)} {phase : Phase Value}
  {next : Phase Value × State Value} {intervalMs sentAt : Int} {clock : Clock}

/-! ## A drain goes on -/

/-- A drain that is not over is the one that runs. -/
theorem Shape.running_drain (h : Shape s ended current) (hid : s.drains[id]? = some phase)
    (hphase : phase ≠ .closed) :
    id = ended ∧ current = some phase := by
  rw [h.drains] at hid
  by_cases hold : id < ended
  · rw [List.getElem?_append_left (by rwa [List.length_replicate]),
      List.getElem?_replicate_of_lt hold] at hid
    exact absurd (Option.some.inj hid).symm hphase
  · rw [List.getElem?_append_right (by rw [List.length_replicate]; exact Nat.not_lt.mp hold),
      List.length_replicate] at hid
    obtain ⟨hlength, -⟩ := List.getElem?_eq_some_iff.mp hid
    cases current with
    | none => exact absurd hlength (Nat.not_lt_zero _)
    | some running =>
        rw [Option.toList_some, List.length_singleton, Nat.lt_one_iff] at hlength
        rw [hlength] at hid
        exact ⟨by omega, congrArg some (Option.some.inj hid)⟩

theorem Good.getElem?_drains (h : Good s ended (some phase)) : s.drains[ended]? = some phase := by
  rw [h.shape.drains, List.getElem?_append_right (by rw [List.length_replicate]),
    List.length_replicate, Nat.sub_self]
  rfl

theorem Shape.put (h : Shape s ended (some phase)) (hdrains : next.2.drains = s.drains)
    (hdraining : next.2.draining = s.draining) (hover : next.1 ≠ .closed) :
    Shape (State.put ended next) ended (some next.1) := by
  refine ⟨?_, hdraining.trans h.draining, fun phase hphase => Option.some.inj hphase ▸ hover⟩
  change next.2.drains.set ended next.1 = _
  rw [hdrains, h.drains, List.set_append_right _ _ (by rw [List.length_replicate]),
    List.length_replicate, Nat.sub_self]
  rfl

theorem Carried.send (h : Carried s none) (hpending : s.pending.isSome) :
    Carried (s.send sentAt).2 (some s.pending) where
  sent := by
    have hsent := h.sent
    rw [Option.toList_none, List.append_nil] at hsent
    exact congrArg (· ++ [s.pending]) hsent
  present := by
    intro event hevent
    rcases List.mem_append.mp hevent with hevent | hevent
    · exact h.present event hevent
    · exact List.mem_singleton.mp hevent ▸ hpending
  calls := by
    have hcalls := h.calls
    change ((s.sent ++ [s.pending]) ++ [none]).flatMap callsOf = _
    rw [List.flatMap_append, hcalls]
    exact List.append_nil _
  merged := by
    intro key
    change (mergedOf ((s.sent ++ [s.pending]) ++ [none])).get key = _
    rw [get_mergedOf_append]
    exact h.merged key
  flushes := h.flushes

/-- The loop finds nothing, waits for the interval or sends. -/
theorem turn_cases (intervalMs : Int) (s : State Value) (clock : Clock) :
    s.pending = none ∧ s.turn intervalMs clock = (.finished, s) ∨
      s.pending.isSome ∧ (s.turn intervalMs clock = (.waiting, s) ∨
        s.turn intervalMs clock = s.send clock.sentAt) := by
  unfold State.turn
  split
  next hpending =>
    refine .inr ⟨hpending, ?_⟩
    split
    · exact .inl rfl
    · exact .inr rfl
  next hpending => exact .inl ⟨Option.not_isSome_iff_eq_none.mp hpending, rfl⟩

/-- What the loop leaves when nothing is in flight. -/
structure Turned (s : State Value) (next : Phase Value × State Value) : Prop where
  drains : next.2.drains = s.drains
  running : next.1 ≠ .closed
  carried : Carried next.2 next.1.event
  waiting : next.1 = .waiting ∨ next.1 = .woken → next.2.pending.isSome

theorem Carried.sending (h : Carried s none) (hpending : s.pending.isSome) :
    Turned s (s.send sentAt) :=
  ⟨rfl, nofun, h.send hpending, fun hphase => hphase.elim nofun nofun⟩

theorem Carried.turn (h : Carried s none) : Turned s (s.turn intervalMs clock) := by
  rcases turn_cases intervalMs s clock with ⟨-, heq⟩ | ⟨hpending, heq | heq⟩
  · rw [heq]
    exact ⟨rfl, nofun, h, fun hphase => hphase.elim nofun nofun⟩
  · rw [heq]
    exact ⟨rfl, nofun, h, fun _ => hpending⟩
  · rw [heq]
    exact h.sending hpending

theorem draining_turn : (s.turn intervalMs clock).2.draining = s.draining := by
  rcases turn_cases intervalMs s clock with ⟨-, heq⟩ | ⟨-, heq | heq⟩
  · rw [heq]
  · rw [heq]
  · rw [heq]
    rfl

theorem Carried.of_drains {flight : Option (Option (Pending Value))} (h : Carried s flight)
    (drains : List (Phase Value)) (draining : Option Nat) :
    Carried { s with drains := drains, draining := draining } flight :=
  ⟨h.sent, h.present, h.calls, h.merged, h.flushes⟩

theorem Good.put (h : Good s ended (some phase)) (hnext : Turned s next)
    (hdraining : next.2.draining = s.draining) :
    Good (State.put ended next) ended (some next.1) where
  shape := h.shape.put hnext.drains hdraining hnext.running
  carried := hnext.carried.of_drains _ _
  pending _ := rfl
  waiting := by
    rintro _ ⟨⟩
    exact hnext.waiting

theorem good_start (hdrains : s.drains = List.replicate ended .closed) (h : Carried s none) :
    Good (s.start intervalMs clock) ended (some (s.turn intervalMs clock).1) where
  shape := by
    refine ⟨?_, ?_, fun phase hphase => Option.some.inj hphase ▸ h.turn.running⟩
    · change (s.turn intervalMs clock).2.drains ++ [_] = _
      rw [h.turn.drains, hdrains]
      rfl
    · change some s.drains.length = _
      rw [hdrains, List.length_replicate]
      rfl
  carried := h.turn.carried.of_drains _ _
  pending _ := rfl
  waiting := by
    rintro _ ⟨⟩
    exact h.turn.waiting

/-! ## Each step -/

theorem Carried.enqueue {flight : Option (Option (Pending Value))} (h : Carried s flight)
    (event : OrderedMap Value) :
    Carried { s with pending := some (spread s.pending event s.enqueued.length),
                     enqueued := s.enqueued ++ [event] } flight where
  sent := h.sent
  present := h.present
  calls := by
    have hcalls := h.calls
    rw [List.flatMap_append, List.flatMap_singleton] at hcalls
    change (s.sent ++ [some _]).flatMap callsOf = List.range (s.enqueued ++ [event]).length
    rw [List.flatMap_append, List.flatMap_singleton, List.length_append, List.length_singleton,
      List.range_succ, ← hcalls, List.append_assoc]
    exact congrArg (s.sent.flatMap callsOf ++ ·) (callsOf_spread s.pending event _)
  merged := by
    intro key
    have hmerged := h.merged key
    rw [get_mergedOf_append] at hmerged
    rw [get_mergedOf_append, OrderedMap.get_merged_append, ← hmerged, ← Option.or_assoc]
    exact congrArg (Option.or · _) (get_spread s.pending event _ key)
  flushes := by
    intro flush hflush
    refine ⟨(h.flushes flush hflush).1.trans ?_, (h.flushes flush hflush).2⟩
    rw [List.length_append]
    exact Nat.le_add_right _ _

theorem Carried.settle {event : Option (Pending Value)} (h : Carried s (some event))
    (succeeds : Bool) :
    Carried { s with settled := s.settled ++ [(event, succeeds)] } none where
  sent := by
    have hsent := h.sent
    rw [Option.toList_some] at hsent
    change s.sent = (s.settled ++ [(event, succeeds)]).map Prod.fst ++ []
    rw [List.append_nil, List.map_append, hsent]
    rfl
  present := h.present
  calls := h.calls
  merged := h.merged
  flushes := by
    intro flush hflush
    refine ⟨(h.flushes flush hflush).1, fun hreturned call hcall => ?_⟩
    obtain ⟨send, hsend, hmem⟩ := (h.flushes flush hflush).2 hreturned call hcall
    exact ⟨send, List.mem_append_left _ hsend, hmem⟩

/-- At rest every call of `enqueue` is in a send that has settled. -/
theorem Good.settled_all (h : Good s ended none) {call : Nat} (hcall : call < s.enqueued.length) :
    ∃ send ∈ s.settled, call ∈ callsOf send.1 := by
  have hpending : s.pending = none := by
    cases hcase : s.pending with
    | none => rfl
    | some pending => exact absurd (h.pending (by rw [hcase]; rfl)) Bool.false_ne_true
  have hmem := List.mem_range.mpr hcall
  have hsent := h.carried.sent
  rw [Option.bind_none, Option.toList_none, List.append_nil] at hsent
  rw [← h.carried.calls, hpending, hsent, List.flatMap_append, List.flatMap_singleton, callsOf,
    Option.elim_none, List.append_nil, List.mem_flatMap] at hmem
  obtain ⟨event, hevent, hcalls⟩ := hmem
  obtain ⟨send, hsend, rfl⟩ := List.mem_map.mp hevent
  exact ⟨send, hsend, hcalls⟩

/-- What a call of `flush` may do next: it returns only at rest. -/
theorem Good.awaits (h : Good s ended current) {enqueued : Nat}
    (hle : enqueued ≤ s.enqueued.length) :
    enqueued ≤ s.enqueued.length ∧ (s.draining = none →
      ∀ call < enqueued, ∃ send ∈ s.settled, call ∈ callsOf send.1) := by
  refine ⟨hle, fun hnone call hcall => ?_⟩
  rw [h.shape.draining, Option.map_eq_none_iff] at hnone
  subst hnone
  exact h.settled_all (Nat.lt_of_lt_of_le hcall hle)

theorem Good.of_flushes (h : Good s ended current) {flushes : List Flush}
    (hflushes : ∀ flush ∈ flushes, flush.enqueued ≤ s.enqueued.length ∧
      (flush.awaits = none → ∀ call < flush.enqueued, ∃ send ∈ s.settled, call ∈ callsOf send.1)) :
    Good { s with flushes := flushes } ended current where
  shape := ⟨h.shape.drains, h.shape.draining, h.shape.running⟩
  carried := ⟨h.carried.sent, h.carried.present, h.carried.calls, h.carried.merged, hflushes⟩
  pending := h.pending
  waiting := h.waiting

theorem Good.enqueue (h : Good s ended current) (event : OrderedMap Value) :
    Kept (s.enqueue intervalMs event clock) := by
  have hcarried := h.carried.enqueue event
  unfold State.enqueue
  dsimp only
  split
  next hnone =>
    have hcurrent : current = none := by
      rw [Option.isNone_iff_eq_none, h.shape.draining, Option.map_eq_none_iff] at hnone
      exact hnone
    have hdrains := h.shape.drains
    rw [hcurrent, Option.toList_none, List.append_nil] at hdrains
    rw [hcurrent] at hcarried
    exact ⟨ended, _, good_start hdrains hcarried⟩
  next hsome =>
    refine ⟨ended, current, ⟨h.shape.drains, h.shape.draining, h.shape.running⟩, hcarried,
      fun _ => ?_, fun _ _ _ => rfl⟩
    cases current with
    | none => exact absurd (by rw [h.shape.draining]; rfl) hsome
    | some phase => rfl

theorem Good.flush (h : Good s ended current) : Good s.flush ended current := by
  refine h.of_flushes fun flush hflush => ?_
  rcases List.mem_append.mp hflush with hflush | hflush
  · exact h.carried.flushes flush hflush
  · rw [List.mem_singleton.mp hflush]
    exact h.awaits (Nat.le_refl _)

/-- The handler starts a drain if an event has come after the last look at it. -/
theorem Good.handler (h : Good s ended (some .finished)) (intervalMs : Int) (clock : Clock) :
    (s.pending = none ∧ Good (s.handler intervalMs ended clock) (ended + 1) none) ∨
      ∃ before, Carried before none ∧ s.pending.isSome ∧ before.pending = s.pending ∧
        s.handler intervalMs ended clock = before.start intervalMs clock ∧
        before.drains = List.replicate (ended + 1) .closed := by
  have hdrains : s.drains.set ended .closed = List.replicate (ended + 1) .closed := by
    rw [h.shape.drains, List.set_append_right _ _ (by rw [List.length_replicate]),
      List.length_replicate, Nat.sub_self, List.replicate_succ']
    rfl
  have hcarried := h.carried.of_drains (s.drains.set ended .closed) none
  unfold State.handler
  dsimp only
  split
  next hpending => exact .inr ⟨_, hcarried, hpending, rfl, rfl, hdrains⟩
  next hpending =>
    refine .inl ⟨Option.not_isSome_iff_eq_none.mp hpending, ⟨?_, rfl, nofun⟩, hcarried,
      fun hsome => absurd hsome hpending, nofun⟩
    rw [Option.toList_none, List.append_nil]
    exact hdrains

theorem Kept.step (h : Kept s) (label : Label Value) : Kept (step intervalMs s label) := by
  obtain ⟨ended, current, h⟩ := h
  have hself : Kept s := ⟨ended, current, h⟩
  cases label with
  | enqueue event clock => exact h.enqueue event
  | flush => exact ⟨ended, current, h.flush⟩
  | fire id =>
      simp only [ProgressDelivery.step]
      split
      next hid =>
        obtain ⟨rfl, rfl⟩ := h.shape.running_drain hid nofun
        refine ⟨id, _, h.put ⟨rfl, nofun, h.carried, fun _ => ?_⟩ rfl⟩
        exact h.waiting _ rfl (.inl rfl)
      · exact hself
  | resume id clock =>
      simp only [ProgressDelivery.step]
      split
      next hid =>
        obtain ⟨rfl, rfl⟩ := h.shape.running_drain hid nofun
        exact ⟨id, _, h.put (h.carried.sending (h.waiting _ rfl (.inr rfl))) rfl⟩
      next hid =>
        obtain ⟨rfl, rfl⟩ := h.shape.running_drain hid nofun
        exact ⟨id, _, h.put h.carried.turn draining_turn⟩
      · exact hself
  | settle id succeeds =>
      simp only [ProgressDelivery.step]
      split
      next event hid =>
        obtain ⟨rfl, rfl⟩ := h.shape.running_drain hid nofun
        exact ⟨id, _,
          h.put ⟨rfl, nofun, h.carried.settle succeeds, fun hphase => hphase.elim nofun nofun⟩ rfl⟩
      · exact hself
  | handler id clock =>
      simp only [ProgressDelivery.step]
      split
      next hid =>
        obtain ⟨rfl, rfl⟩ := h.shape.running_drain hid nofun
        -- the drain is over, or one more begins for what came in meanwhile
        rcases h.handler intervalMs clock with ⟨-, hrest⟩ | ⟨before, hcarried, -, -, heq, hdrains⟩
        · exact ⟨id + 1, none, hrest⟩
        · rw [heq]
          exact ⟨id + 1, _, good_start hdrains hcarried⟩
      · exact hself
  | wake call =>
      simp only [ProgressDelivery.step]
      split
      next enqueued id hcall =>
        split
        · refine ⟨ended, current, h.of_flushes fun flush hflush => ?_⟩
          rcases List.mem_or_eq_of_mem_set hflush with hflush | rfl
          · exact h.carried.flushes flush hflush
          · exact h.awaits (h.carried.flushes _ (List.mem_of_getElem? hcall)).1
        · exact hself
      · exact hself

theorem kept_after (intervalMs : Int) (labels : List (Label Value)) :
    Kept (after intervalMs labels) := by
  have hrun : ∀ s : State Value, Kept s → Kept (labels.foldl (step intervalMs) s) := by
    induction labels with
    | nil => exact fun _ h => h
    | cons label labels ih => exact fun s h => ih _ (h.step label)
  refine hrun {} ⟨0, none, ⟨rfl, rfl, nofun⟩, ⟨rfl, nofun, rfl, fun _ => rfl, nofun⟩, nofun, nofun⟩

/-! ## Every run -/

/-- Two events behind a send that fails go into one, which waits for the interval. -/
example : (after 1000 [.enqueue (OrderedMap.empty.set "phase" "accepted") ⟨0, 0⟩,
    .enqueue (OrderedMap.empty.set "phase" "running") ⟨5, 5⟩, .flush,
    .enqueue (OrderedMap.empty.set "backupStage" "cleanup") ⟨9, 9⟩, .settle 0 false,
    .resume 0 ⟨10, 10⟩, .fire 0, .resume 0 ⟨1000, 1000⟩]).sent.map callsOf = [[0], [1, 2]] := by
  decide +kernel

/-! ## The end of a drain -/

/-- How many steps a drain is from its end, at most. -/
def Phase.distance (pending : Bool) : Phase Value → Nat
  | .waiting => 7
  | .woken => 6
  | .sending _ => if pending then 10 else 5
  | .settled => if pending then 9 else 4
  | .finished => if pending then 8 else 3
  | .closed => 0

def State.distance (s : State Value) : Nat :=
  (s.draining.bind (s.drains[·]?)).elim 0 (Phase.distance s.pending.isSome)

theorem Good.distance (h : Good s ended current) :
    s.distance = current.elim 0 (Phase.distance s.pending.isSome) := by
  unfold State.distance
  cases current with
  | none =>
      have hrest : s.draining = none := h.shape.draining
      rw [hrest]
      rfl
  | some phase =>
      have hdraining : s.draining = some ended := h.shape.draining
      rw [hdraining, Option.bind_some, h.getElem?_drains]

/-- Where the loop comes to with an event pending, the drain is nearer to its end than before. -/
theorem distance_turn (hpending : s.pending.isSome) :
    Phase.distance (s.turn intervalMs clock).2.pending.isSome (s.turn intervalMs clock).1 ≤ 7 := by
  rcases turn_cases intervalMs s clock with ⟨hnone, -⟩ | ⟨-, heq | heq⟩
  · rw [hnone] at hpending
    exact absurd hpending Bool.false_ne_true
  · rw [heq]
    exact Nat.le_refl 7
  · rw [heq]
    exact (by decide : 5 ≤ 7)

/-- A drain that runs has a step to go on, whatever the clock and the outcome of a send, and comes
nearer to its end by it. -/
theorem drain_goes_on (labels : List (Label Value))
    (hid : (after intervalMs labels).draining = some id) (clock : Clock) (succeeds : Bool) :
    ∃ label ∈ [.fire id, .resume id clock, .settle id succeeds, .handler id clock],
      (step intervalMs (after intervalMs labels) label).distance <
        (after intervalMs labels).distance := by
  obtain ⟨ended, current, h⟩ := kept_after intervalMs labels
  generalize after intervalMs labels = s at *
  -- Something drains, so there is a current phase and it is that of `id`.
  obtain ⟨phase, rfl, rfl⟩ : ∃ phase, current = some phase ∧ ended = id := by
    rw [h.shape.draining] at hid
    obtain ⟨phase, hphase, heq⟩ := Option.map_eq_some_iff.mp hid
    exact ⟨phase, hphase, heq⟩
  have hphase := h.getElem?_drains
  rw [h.distance]
  cases phase with
  | waiting =>
      refine ⟨.fire ended, by simp, ?_⟩
      simp only [step, hphase]
      have hnext : Good (State.put ended (.woken, s)) ended (some .woken) :=
        h.put ⟨rfl, nofun, h.carried, fun _ => h.waiting _ rfl (.inl rfl)⟩ rfl
      rw [hnext.distance]
      exact Nat.lt_succ_self 6
  | woken =>
      refine ⟨.resume ended clock, by simp, ?_⟩
      simp only [step, hphase]
      rw [(h.put (h.carried.sending (h.waiting _ rfl (.inr rfl))) rfl).distance]
      exact Nat.lt_succ_self 5
  | sending event =>
      refine ⟨.settle ended succeeds, by simp, ?_⟩
      simp only [step, hphase]
      have hnext :
          Good (State.put ended (.settled, { s with settled := s.settled ++ [(event, succeeds)] }))
            ended (some .settled) :=
        h.put ⟨rfl, nofun, h.carried.settle succeeds, fun hphase => hphase.elim nofun nofun⟩ rfl
      rw [hnext.distance]
      change (if s.pending.isSome then 9 else 4) < if s.pending.isSome then 10 else 5
      split <;> decide
  | settled =>
      refine ⟨.resume ended clock, by simp, ?_⟩
      simp only [step, hphase]
      rw [(h.put h.carried.turn draining_turn).distance]
      change Phase.distance (s.turn intervalMs clock).2.pending.isSome (s.turn intervalMs clock).1 <
        if s.pending.isSome then 9 else 4
      -- With a value pending the drain takes another turn; without one it finishes.
      by_cases hpending : s.pending.isSome
      · rw [if_pos hpending]
        exact Nat.lt_of_le_of_lt (distance_turn hpending) (by decide)
      · have hturn : s.turn intervalMs clock = (.finished, s) := if_neg hpending
        rw [if_neg hpending, hturn, Bool.eq_false_iff.mpr hpending]
        exact Nat.lt_succ_self 3
  | finished =>
      refine ⟨.handler ended clock, by simp, ?_⟩
      simp only [step, hphase]
      -- Either nothing is pending and the drain closes, or the handler starts the next one.
      rcases h.handler intervalMs clock with ⟨hpending, hrest⟩ | ⟨before, hcarried, hpending,
        hsame, heq, hdrains⟩
      · rw [hrest.distance, hpending]
        exact Nat.zero_lt_succ 2
      · rw [heq, (good_start hdrains hcarried).distance, hpending]
        exact Nat.lt_of_le_of_lt (distance_turn (hsame ▸ hpending)) (Nat.lt_succ_self 7)
  | closed => exact absurd rfl (h.shape.running _ rfl)

end

end Pluton.ProgressDelivery
