-- SUMMARY: `ProgressDelivery` of the agent, step by step: pending event, drains, flushes.
import Pluton.OrderedMap

/-!
# Delivery of progress

Events are spread over a pending one, which a drain sends when the interval is over and the
send before has settled. Between two steps anything else can run: each call of `enqueue` or
`flush`, each timer, each settlement, each resumption behind an `await` and each handler of
`finally` is a step of its own. `send` and `onFailure` return before they call anything here.

For the record a pending event keeps the numbers of the calls of `enqueue` that were spread into
it, and a call of `flush` the number of such calls before it.
-/
namespace Pluton.ProgressDelivery

/-! ## State -/

section
variable {Value : Type}

structure Pending (Value : Type) where
  event : OrderedMap Value
  calls : List Nat

/-- Where a drain stands. -/
inductive Phase (Value : Type) where
  /-- Behind `setTimeout`. -/
  | waiting
  /-- The timer has fired. -/
  | woken
  /-- Behind `send`. -/
  | sending (event : Option (Pending Value))
  /-- The send has settled. -/
  | settled
  /-- Returned, the handler of `finally` is still to run. -/
  | finished
  /-- The handler has run. -/
  | closed

/-- A call of `flush`, and the drain that it awaits unless it has returned. -/
structure Flush where
  enqueued : Nat
  awaits : Option Nat

structure State (Value : Type) where
  pending : Option (Pending Value) := none
  /-- The number of the drain whose promise `draining` is. -/
  draining : Option Nat := none
  /-- Nothing for minus infinity. -/
  lastSent : Option Int := none
  drains : List (Phase Value) := []
  flushes : List Flush := []
  /-- The events of the calls of `enqueue`. -/
  enqueued : List (OrderedMap Value) := []
  /-- The arguments of the calls of `send`. -/
  sent : List (Option (Pending Value)) := []
  /-- The sends that have settled, and whether they succeeded. -/
  settled : List (Option (Pending Value) × Bool) := []

/-- What `Date.now()` returns in a step, first for the delay and then for the send. -/
structure Clock where
  now : Int
  sentAt : Int

/-! ## Steps -/

def spread (pending : Option (Pending Value)) (event : OrderedMap Value) (call : Nat) :
    Pending Value :=
  match pending with
  | none => ⟨OrderedMap.empty.spread event, [call]⟩
  | some before => ⟨before.event.spread event, before.calls ++ [call]⟩

/-- `lastSent + intervalMs - Date.now() > 0` -/
def delayed (lastSent : Option Int) (intervalMs now : Int) : Bool :=
  lastSent.any fun last => 0 < last + intervalMs - now

namespace State

/-- From `const event = this.pending` to `send`. -/
def send (s : State Value) (sentAt : Int) : Phase Value × State Value :=
  (.sending s.pending, { s with pending := none, lastSent := some sentAt,
                                sent := s.sent ++ [s.pending] })

/-- The loop of a drain up to its next `await`. -/
def turn (intervalMs : Int) (s : State Value) (clock : Clock) : Phase Value × State Value :=
  if s.pending.isSome then
    if delayed s.lastSent intervalMs clock.now then (.waiting, s) else s.send clock.sentAt
  else (.finished, s)

/-- A drain has come to its next `await`. -/
def put (id : Nat) (next : Phase Value × State Value) : State Value :=
  { next.2 with drains := next.2.drains.set id next.1 }

def start (intervalMs : Int) (s : State Value) (clock : Clock) : State Value :=
  let next := turn intervalMs s clock
  { next.2 with drains := next.2.drains ++ [next.1], draining := some s.drains.length }

def enqueue (intervalMs : Int) (s : State Value) (event : OrderedMap Value) (clock : Clock) :
    State Value :=
  let s := { s with pending := some (spread s.pending event s.enqueued.length),
                    enqueued := s.enqueued ++ [event] }
  if s.draining.isNone then s.start intervalMs clock else s

/-- A call of `flush` up to its first `await`. -/
def flush (s : State Value) : State Value :=
  { s with flushes := s.flushes ++ [⟨s.enqueued.length, s.draining⟩] }

/-- The handler of `finally`. -/
def handler (intervalMs : Int) (s : State Value) (id : Nat) (clock : Clock) : State Value :=
  let s := { s with drains := s.drains.set id .closed, draining := none }
  if s.pending.isSome then s.start intervalMs clock else s

end State

inductive Label (Value : Type) where
  | enqueue (event : OrderedMap Value) (clock : Clock)
  | flush
  /-- The timer of a drain fires. -/
  | fire (id : Nat)
  /-- A drain runs on behind its `await`. -/
  | resume (id : Nat) (clock : Clock)
  | settle (id : Nat) (succeeds : Bool)
  | handler (id : Nat) (clock : Clock)
  /-- A call of `flush` runs on behind its `await`. -/
  | wake (call : Nat)

/-- A label that cannot happen changes nothing. -/
def step (intervalMs : Int) (s : State Value) : Label Value → State Value
  | .enqueue event clock => s.enqueue intervalMs event clock
  | .flush => s.flush
  | .fire id =>
    match s.drains[id]? with
    | some .waiting => .put id (.woken, s)
    | _ => s
  | .resume id clock =>
    match s.drains[id]? with
    | some .woken => .put id (s.send clock.sentAt)
    | some .settled => .put id (s.turn intervalMs clock)
    | _ => s
  | .settle id succeeds =>
    match s.drains[id]? with
    | some (.sending event) =>
        .put id (.settled, { s with settled := s.settled ++ [(event, succeeds)] })
    | _ => s
  | .handler id clock =>
    match s.drains[id]? with
    | some .finished => s.handler intervalMs id clock
    | _ => s
  | .wake call =>
    match s.flushes[call]? with
    | some ⟨enqueued, some id⟩ =>
      match s.drains[id]? with
      | some .closed => { s with flushes := s.flushes.set call ⟨enqueued, s.draining⟩ }
      | _ => s
    | _ => s

/-- The state after a run. -/
def after (intervalMs : Int) (labels : List (Label Value)) : State Value :=
  labels.foldl (step intervalMs) {}

end

end Pluton.ProgressDelivery
