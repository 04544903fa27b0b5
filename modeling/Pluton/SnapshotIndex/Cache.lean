-- SUMMARY: The cache of snapshot indexes: entries, builds, leases, and how they interleave.
import Mathlib.Algebra.GroupWithZero.Nat
import Mathlib.Data.List.MinMax

/-!
# The cache of snapshot indexes

`ManagedSnapshotIndexCache`. An entry is built once, in the background, and leased by
the calls that read its index. Looking up, making room and leasing run one at a time, in
the section that `exclusive` serialises; releases, builds, aborts and `close` run outside
it. `step` resumes one of these up to its next `await`; what the file system, the
database, `populate` and the consumers answer is part of the label.
-/
namespace Pluton.SnapshotIndex

/-! ## Errors -/

/-- The codes that the cache and its builds give; the others are thrown by consumers. -/
inductive Code where
  | indexResourceLimit
  | indexUnavailable
  | metadataInvalid
  | cancelled
  deriving DecidableEq

inductive Reason where
  | cacheActive
  | buildBusy
  | admissionBusy
  | diskCapacity
  | storageFull
  | databaseSize
  | entryCount
  | cleanupFailed
  | unavailable
  | metadataInvalid
  | timeout
  | cancelled
  | unsafePath
  | invalidNodeName
  | duplicateEntry
  | invalidTimestamp
  | ancestorConflict
  | invalidSize
  | metadataSchemaInvalid
  | repositoryOutputInvalid
  deriving DecidableEq

structure SnapshotIndexError where
  code : Code
  reason : Reason
  deriving DecidableEq

/-- An error with the reason that its code has by default. -/
def SnapshotIndexError.of (code : Code) : SnapshotIndexError where
  code := code
  reason :=
    match code with
    | .metadataInvalid => .metadataInvalid
    | .cancelled => .cancelled
    | _ => .unavailable

inductive AppError where
  | index (error : SnapshotIndexError)
  | other (statusCode : Nat)
  deriving DecidableEq

/-- The error has the reason `cancelled`. -/
def AppError.cancels : AppError → Bool
  | index error => error.reason == .cancelled
  | other _ => false

def AppError.cancelled : AppError := .index (.of .cancelled)

def AppError.unavailable : AppError := .index (.of .indexUnavailable)

def AppError.cleanup : AppError := .index ⟨.indexUnavailable, .cleanupFailed⟩

def AppError.limit (reason : Reason) : AppError := .index ⟨.indexResourceLimit, reason⟩

/-- What a build can throw: an error of the application, a full database, an error of
`populate` with its code and reason, or anything else. -/
inductive Thrown where
  | app (error : AppError)
  | full
  | coded (code : String) (reason : Option Reason)
  | other
  deriving DecidableEq

/-- The `catch` of a build, with the wrapping of its caller. `sized` is whether the
database is at its limit, `low` whether the disk answers that it is short of space. -/
def rethrown (sized low : Bool) (thrown : Thrown) : AppError :=
  let full :=
    AppError.limit (if sized then .databaseSize else if low then .diskCapacity else .storageFull)
  match thrown with
  | .full => full
  | .app (.index error) =>
      if error.reason == .storageFull then full
      else if error.code == .cancelled then .cancelled
      else .index error
  | .app error => error
  | .coded code reason =>
      if code == "timeout" then .index ⟨.indexUnavailable, .timeout⟩
      else if code == "cancelled" then .cancelled
      else if code == "invalid-output" then
        let listed :=
          [Reason.invalidSize, .invalidTimestamp, .metadataSchemaInvalid, .repositoryOutputInvalid]
        .index ⟨.metadataInvalid, (reason.filter listed.contains).getD .repositoryOutputInvalid⟩
      else .unavailable
  | .other => .unavailable

/-! ## State -/

structure Limits where
  maxBytes : Nat
  maxIndexes : Nat
  ttlMs : Nat
  maxBuilds : Nat

/-- `this.limits.maxBytes + 64 * 1024 ** 2` -/
def Limits.space (limits : Limits) : Nat := limits.maxBytes + 64 * 1024 ^ 2

/-- Where a build stands. `clearing` is its `catch` waiting for its own directory. -/
inductive Build where
  | preparing
  | working
  | clearing (error : AppError)
  | built
  | failed (error : AppError)

/-- The directory of an entry. The build clears it when it fails, `remove` removes it. -/
inductive Directory where
  | none
  | made
  | clearing
  | cleared
  | removing
  | removed
  deriving DecidableEq

/-- `index` is whether the field is set, `closed` whether the index that was built is
closed, `aborted` the signal of the build, `idle` the `close` that waits for the readers. -/
structure Entry where
  key : String
  generation : String
  background : Bool
  aborted : Bool := false
  index : Bool := false
  closed : Bool := false
  error : Option AppError := none
  updated : Nat
  used : Nat
  readers : Nat := 0
  settled : Bool := false
  directory : Directory := .none
  build : Build := .preparing
  idle : Option Nat := none

/-- `entry.settled && !entry.readers` -/
def Entry.unused (entry : Entry) : Bool := entry.settled && entry.readers == 0

/-- `entry.error && !entry.readers && entry.settled` -/
def Entry.retired (entry : Entry) : Bool := entry.error.isSome && entry.unused

/-- `entry.index?.close(); entry.index = undefined;` -/
def Entry.closeIndex (entry : Entry) : Entry :=
  { entry with index := false, closed := entry.closed || entry.index }

inductive Request where
  | start (key : String) (background : Bool)
  | use (key : String)
  | useReady (key generation : String)
  | retry (key : String)
  | expire
  deriving DecidableEq

def Request.isUse : Request → Bool
  | use _ => true
  | _ => false

/-- `background` as `acquire` is given it. -/
def Request.background : Request → Bool
  | start _ background => background
  | _ => false

inductive Result where
  | ok
  | threw
  | failed (error : AppError)
  deriving DecidableEq

/-- Where a call waits: for the section, for the promise of the entry that it leases, for
its consumer, or, after it aborted a build, for that build. -/
inductive Place where
  | admitting
  | leased (e : Nat)
  | waiting (e : Nat)
  | consuming (e : Nat)
  | settling (e : Nat) (result : Result)
  | ended (result : Result)
  deriving DecidableEq

/-- The call is between the lease and the release of that entry. -/
def Place.holds (e : Nat) : Place → Bool
  | leased f | waiting f | consuming f => f == e
  | _ => false

/-- `aborted` is the call's own signal. -/
structure Call where
  request : Request
  aborted : Bool := false
  place : Place
  deriving DecidableEq

/-- How the action in the section goes on after an `await`. -/
inductive Next where
  | expire (rest : List Nat)
  | expireAll
  | expired
  | admitEntry
  | initializeRoot
  | measure

/-- Where the action in the section waits. -/
inductive Turn where
  | next (next : Next)
  | removing (e : Nat) (next : Next)
  | initializing
  | measuring

structure Action where
  call : Nat
  turn : Turn

/-- Where a `close` waits. -/
inductive Closing where
  | admission
  | settling (entries : List Nat)
  | visiting (rest : List Nat)
  | idling (e : Nat) (rest : List Nat) (woken : Bool)
  | removing (e : Nat) (rest : List Nat)
  | ended (result : Result)
  deriving DecidableEq

/-- `heap` has every entry that was ever made; `entries` is the map of keys, in the
order in which it is iterated; `exclusive` is the action that runs, `admission` the calls
that wait for their turn. -/
structure Cache where
  now : Nat
  sequence : Nat := 0
  initialized : Bool := false
  builds : Nat := 0
  closed : Bool := false
  heap : List Entry := []
  entries : List (String × Nat) := []
  exclusive : Option Action := none
  admission : List Nat := []
  calls : List Call := []
  closings : List Closing := []

/-- What the awaited call answers. `returned` is whether it returned, `closes` whether the
database of an index closes, `available` the space on the disk, `generation` a new id,
`first` whether the abort of the caller wins the race with the promise of the entry. -/
structure Answer where
  returned : Bool := true
  closes : Bool := true
  available : Nat := 0
  generation : String := ""
  first : Bool := false
  deriving DecidableEq

inductive BuildAnswer where
  | returned (available : Nat)
  | threw (thrown : Thrown) (sized low : Bool)
  deriving DecidableEq

/-- How `remove` goes on: it waits for the directory, or it has ended. -/
inductive Removal where
  | waiting
  | done
  | failed (error : AppError)

/-- `/^[a-f0-9]{64}$/` -/
def validKey (key : String) : Bool :=
  key.toList.all (fun ch => ch.isDigit || ('a' ≤ ch && ch ≤ 'f')) && key.toList.length == 64

namespace Cache

variable (limits : Limits) (s : Cache)

/-! ## Entries -/

def amend (e : Nat) (set : Entry → Entry) : Cache := { s with heap := s.heap.modify e set }

/-- The entry was used now: `entry.updated = Date.now(); entry.used = ++this.sequence`. -/
def touch (e : Nat) : Cache :=
  { s.amend e (fun entry => { entry with updated := s.now, used := s.sequence + 1 }) with
    sequence := s.sequence + 1 }

/-- `this.entries.get(key)` -/
def get (key : String) : Option (Nat × Entry) :=
  match s.entries.find? fun held => held.1 == key with
  | none => none
  | some held => s.heap[held.2]?.map fun entry => (held.2, entry)

/-- The map still has that entry. -/
def cached (e : Nat) : Bool := s.entries.any fun held => held.2 == e

/-- `this.entries.set(key, entry)` -/
def put (key : String) (e : Nat) : Cache :=
  if s.entries.any fun held => held.1 == key then
    { s with entries := s.entries.map fun held => if held.1 == key then (key, e) else held }
  else { s with entries := s.entries ++ [(key, e)] }

/-- `if (this.entries.get(key) === entry) this.entries.delete(key)` -/
def delete (key : String) (e : Nat) : Cache :=
  if (s.entries.find? fun held => held.1 == key).any fun held => held.2 == e then
    { s with entries := s.entries.filter fun held => held.1 != key }
  else s

/-- The `catch` of `remove`. -/
def cleanupFailed (e : Nat) : Cache × Removal :=
  (s.amend e fun entry => { entry with error := some .cleanup }, .failed .cleanup)

/-- `remove` up to its `await`. -/
def remove (e : Nat) (closes : Bool) : Cache × Removal :=
  match s.heap[e]? with
  | none => (s, .done)
  | some entry =>
      if !entry.unused then (s, .failed (.limit .cacheActive))
      else if entry.index && !closes then s.cleanupFailed e
      else if entry.directory == .none then ((s.amend e Entry.closeIndex).delete entry.key e, .done)
      else (s.amend e fun row => { row.closeIndex with directory := .removing }, .waiting)

/-- `remove` after its `await`. -/
def removed (e : Nat) (returned : Bool) : Cache × Removal :=
  match s.heap[e]? with
  | none => (s, .done)
  | some entry =>
      if returned then
        ((s.amend e fun row => { row with directory := .removed }).delete entry.key e, .done)
      else s.cleanupFailed e

/-- The least recently used entry that no reader and no build holds. -/
def victim : Option Nat :=
  ((s.entries.map Prod.snd).filter fun e => s.heap[e]?.any Entry.unused).argmin fun e =>
    s.heap[e]?.elim 0 Entry.used

/-! ## The section -/

def setPlace (i : Nat) (place : Place) : Cache :=
  { s with calls := s.calls.modify i fun call => { call with place := place } }

/-- The action waits. -/
def turn (i : Nat) (turn : Turn) : Cache := { s with exclusive := some ⟨i, turn⟩ }

/-- The action ends. -/
def finish (i : Nat) (place : Place) : Cache := { s.setPlace i place with exclusive := none }

def refuse (i : Nat) (error : AppError) : Cache := s.finish i (.ended (.failed error))

/-- The action goes on from `await this.remove(key, entry)`. -/
def goOn (i e : Nat) (next : Next) : Cache × Removal → Cache
  | (s, .waiting) => s.turn i (.removing e next)
  | (s, .done) => s.turn i (.next next)
  | (s, .failed error) => s.refuse i error

/-- `expire` from one of the entries that it iterates. -/
def expire (i : Nat) (closes : Bool) : List Nat → Cache
  | [] => s.turn i (.next .expired)
  | e :: rest =>
      if s.cached e && s.heap[e]?.any fun entry =>
        entry.unused && entry.updated + limits.ttlMs ≤ s.now then
        goOn i e (.expire rest) (s.remove e closes)
      else expire i closes rest

def expireAll (i : Nat) (closes : Bool) : Cache := s.expire limits i closes (s.entries.map Prod.snd)

/-- The end of `acquire`; only `use` leases. -/
def grant (i e : Nat) (request : Request) : Cache :=
  let granted :=
    (s.amend e fun entry =>
      { entry with background := entry.background || request.background }).touch e
  if request.isUse then
    (granted.amend e fun entry => { entry with readers := entry.readers + 1 }).finish i (.leased e)
  else granted.finish i (.ended .ok)

/-- `acquire` without an entry, up to its next `await`. -/
def admitEntry (i : Nat) (closes : Bool) : Cache :=
  if limits.maxBuilds ≤ s.builds then s.refuse i (.limit .buildBusy)
  else if limits.maxIndexes ≤ s.entries.length then
    match s.victim with
    | none => s.refuse i (.limit .cacheActive)
    | some e => goOn i e .initializeRoot (s.remove e closes)
  else s.turn i .initializing

/-- `acquire` after `expire`; only `use` retries. -/
def find (i : Nat) (key : String) (request : Request) (closes : Bool) : Cache :=
  match s.get key with
  | none => s.admitEntry limits i closes
  | some (e, entry) =>
      if entry.retired && request.isUse then goOn i e .admitEntry (s.remove e closes)
      else
        match entry.error with
        | some error => s.refuse i error
        | none => s.grant i e request

/-- `acquire` makes the entry and starts its build. -/
def create (i : Nat) (key : String) (request : Request) (generation : String) : Cache :=
  let entry : Entry :=
    { key := key, generation := generation, background := request.background, updated := s.now,
      used := s.sequence + 1 }
  let made :=
    { s with heap := s.heap ++ [entry], builds := s.builds + 1, sequence := s.sequence + 1 }
  (made.put key s.heap.length).grant i s.heap.length request

/-- `initialize` removes every directory that has the name of an index. -/
def sweep : Cache := { s with heap := s.heap.map fun entry => { entry with directory := .removed } }

/-- `useReady` after `expire`. -/
def leaseReady (i : Nat) (key generation : String) : Cache :=
  match s.get key with
  | none => s.refuse i (.other 409)
  | some (e, entry) =>
      if entry.index && entry.generation == generation then
        let leased :=
          s.amend e fun row => { row with readers := row.readers + 1, used := s.sequence + 1 }
        { leased with sequence := s.sequence + 1 }.finish i (.leased e)
      else s.refuse i (.other 409)

/-- The action of a call up to its first `await`. -/
def enter (i : Nat) (request : Request) (closes : Bool) : Cache :=
  match request with
  | .start key _ | .use key =>
      if validKey key then s.expireAll limits i closes else s.refuse i .unavailable
  | .useReady .. | .expire => s.expireAll limits i closes
  | .retry key =>
      match s.get key with
      | none => s.expireAll limits i closes
      | some (e, entry) =>
          if entry.retired then goOn i e .expireAll (s.remove e closes)
            else s.expireAll limits i closes

def proceed (i : Nat) (request : Request) (answer : Answer) : Next → Cache
  | .expire rest => s.expire limits i answer.closes rest
  | .expireAll => s.expireAll limits i answer.closes
  | .expired =>
      match request with
      | .start key _ | .use key => s.find limits i key request answer.closes
      | .useReady key generation => s.leaseReady i key generation
      | .retry _ | .expire => s.finish i (.ended .ok)
  | .admitEntry => s.admitEntry limits i answer.closes
  | .initializeRoot => s.turn i .initializing
  | .measure => s.turn i .measuring

/-- The disk answers `acquire`. -/
def measured (i : Nat) (request : Request) (answer : Answer) : Cache :=
  if !answer.returned then s.refuse i .unavailable
  else if answer.available < limits.space then
    match s.victim with
    | none => s.refuse i (.limit .diskCapacity)
    | some e => goOn i e .measure (s.remove e answer.closes)
  else
    match request with
    | .start key _ | .use key => s.create i key request answer.generation
    | _ => s

def resumeAction (i : Nat) (request : Request) (answer : Answer) : Turn → Cache
  | .next next => s.proceed limits i request answer next
  | .removing e next => goOn i e next (s.removed e answer.returned)
  | .initializing =>
      if s.initialized then s.turn i .measuring
      else if answer.returned then { s.sweep with initialized := true }.turn i .measuring
      else s.sweep.refuse i .cleanup
  | .measuring => s.measured limits i request answer

/-- The action in the section goes on, or the next one begins. -/
def resumeExclusive (answer : Answer) : Cache :=
  match s.exclusive with
  | some action =>
      match s.calls[action.call]? with
      | none => s
      | some call => s.resumeAction limits action.call call.request answer action.turn
  | none =>
      match s.admission with
      | [] => s
      | i :: rest =>
          match s.calls[i]? with
          | none => s
          | some call => { s with admission := rest }.enter limits i call.request answer.closes

/-! ## Calls -/

/-- `entry.idle?.()` -/
def wake (idle : Option Nat) : Cache :=
  match idle with
  | none => s
  | some c =>
      let rouse : Closing → Closing := fun
        | .idling e rest _ => .idling e rest true
        | closing => closing
      { s with closings := s.closings.modify c rouse }

/-- The `finally` of `use` and `useReady`. -/
def release (i e : Nat) (call : Call) (result : Result) : Cache :=
  match s.heap[e]? with
  | none => s
  | some entry =>
      let released := (s.amend e fun row => { row with readers := row.readers - 1 }).touch e
      let last := entry.readers - 1 == 0
      let woken := if last then released.wake entry.idle else released
      if last && !entry.background && !entry.settled && call.aborted && call.request.isUse then
        (woken.amend e fun row => { row with aborted := true }).setPlace i (.settling e result)
      else woken.setPlace i (.ended result)

def resumeCall (i : Nat) (call : Call) (answer : Answer) : Cache :=
  match call.place with
  | .admitting | .ended _ => s
  | .leased e =>
      match call.request with
      | .useReady .. => s.setPlace i (.consuming e)
      | _ => s.setPlace i (.waiting e)
  | .waiting e =>
      match s.heap[e]? with
      | none => s
      | some entry =>
          if call.aborted && (answer.first || !entry.settled) then
            s.release i e call (.failed .cancelled)
          else if !entry.settled then s
          else
            match entry.build with
            | .built => if call.aborted then s.release i e call (.failed .cancelled)
                else s.setPlace i (.consuming e)
            | .failed error => s.release i e call (.failed error)
            | _ => s
  | .consuming e => s.release i e call (if answer.returned then .ok else .threw)
  | .settling e result => if s.heap[e]?.any Entry.settled then s.setPlace i (.ended result) else s

/-- A call up to its first `await`. `aborted` is whether its signal already is. -/
def call (request : Request) (aborted : Bool) : Cache :=
  if request.isUse && aborted then
    { s with calls := s.calls ++ [⟨request, aborted, .ended (.failed .cancelled)⟩] }
  else if s.closed then
    { s with calls := s.calls ++ [⟨request, aborted, .ended (.failed .unavailable)⟩] }
  else if 16 ≤ s.admission.length + s.exclusive.toList.length then
    { s with calls := s.calls ++ [⟨request, aborted, .ended (.failed (.limit .admissionBusy))⟩] }
  else
    { s with calls := s.calls ++ [⟨request, aborted, .admitting⟩],
             admission := s.admission ++ [s.calls.length] }

/-! ## Builds -/

/-- The build rejects without a directory. -/
def failBuild (e : Nat) (error : AppError) : Cache :=
  s.amend e fun entry => { entry with build := .failed error, error := some error }

/-- The `catch` of a build starts to remove its directory. -/
def clearBuild (e : Nat) (error : AppError) : Cache :=
  s.amend e fun entry => { entry with build := .clearing error, directory := .clearing }

/-- The `finally` of a build. -/
def settle (e : Nat) : Cache :=
  let settled := (s.amend e fun entry => { entry with settled := true }).touch e
  { settled with builds := s.builds - 1 }

def resumeBuild (e : Nat) (entry : Entry) (answer : BuildAnswer) : Cache :=
  match entry.build, answer with
  | .preparing, .returned available =>
      if available < limits.space then s.failBuild e (.limit .diskCapacity)
      else s.amend e fun row => { row with build := .working, directory := .made }
  | .preparing, .threw thrown sized low => s.failBuild e (rethrown sized low thrown)
  | .working, .returned _ =>
      if entry.aborted then s.clearBuild e .cancelled
      else s.amend e fun row => { row with build := .built, index := true }
  | .working, .threw thrown sized low => s.clearBuild e (rethrown sized low thrown)
  | .clearing error, .returned _ =>
      (s.amend e fun row => { row with directory := .cleared }).failBuild e error
  | .clearing _, .threw .. => s.failBuild e .cleanup
  | .built, _ | .failed _, _ => if entry.settled then s else s.settle e

/-! ## Closing -/

def setClosing (c : Nat) (closing : Closing) : Cache :=
  { s with closings := s.closings.set c closing }

/-- `close` goes on from `await this.remove(key, entry)`. -/
def closeOn (c e : Nat) (rest : List Nat) : Cache × Removal → Cache
  | (s, .waiting) => s.setClosing c (.removing e rest)
  | (s, .done) => s.setClosing c (.visiting rest)
  | (s, .failed error) => s.setClosing c (.ended (.failed error))

/-- The last loop of `close`, from one of the entries that it iterates. -/
def visit (c : Nat) (closes : Bool) : List Nat → Cache
  | [] => s.setClosing c (.ended .ok)
  | e :: rest =>
      if !s.cached e then visit c closes rest
      else if s.heap[e]?.any fun entry => entry.readers != 0 then
        (s.amend e fun entry => { entry with idle := some c }).setClosing c (.idling e rest false)
      else closeOn c e rest (s.remove e closes)

/-- `for (const entry of this.entries.values()) entry.controller.abort()` -/
def abortAll : Cache :=
  s.entries.foldl (fun s held => s.amend held.2 fun entry => { entry with aborted := true }) s

def resumeClosing (c : Nat) (closing : Closing) (answer : Answer) : Cache :=
  match closing with
  | .admission =>
      if s.exclusive.isSome || !s.admission.isEmpty then s
      else s.abortAll.setClosing c (.settling (s.entries.map Prod.snd))
  | .settling entries =>
      if entries.all fun e =>
        s.heap[e]?.all Entry.settled then s.setClosing c (.visiting (s.entries.map Prod.snd)) else s
  | .visiting rest => s.visit c answer.closes rest
  | .idling e rest woken => if woken then closeOn c e rest (s.remove e answer.closes) else s
  | .removing e rest => closeOn c e rest (s.removed e answer.returned)
  | .ended _ => s

end Cache

/-! ## Steps -/

/-- What happens next: the clock is set, a call is made or its signal aborted, or the
section, a call, a build or a `close` goes on. -/
inductive Label where
  | clock (now : Nat)
  | call (request : Request) (aborted : Bool)
  | abort (i : Nat)
  | exclusive (answer : Answer)
  | resume (i : Nat) (answer : Answer)
  | build (e : Nat) (answer : BuildAnswer)
  | close
  | closing (c : Nat) (answer : Answer)
  deriving DecidableEq

def step (limits : Limits) (s : Cache) : Label → Cache
  | .clock now => { s with now := now }
  | .call request aborted => s.call request aborted
  | .abort i => { s with calls := s.calls.modify i fun call => { call with aborted := true } }
  | .exclusive answer => s.resumeExclusive limits answer
  | .resume i answer =>
      match s.calls[i]? with
      | none => s
      | some call => s.resumeCall i call answer
  | .build e answer =>
      match s.heap[e]? with
      | none => s
      | some entry => s.resumeBuild limits e entry answer
  | .close => { s with closed := true, closings := s.closings ++ [.admission] }
  | .closing c answer =>
      match s.closings[c]? with
      | none => s
      | some closing => s.resumeClosing c closing answer

/-- The cache after a run. -/
def Cache.after (limits : Limits) (s : Cache) (labels : List Label) : Cache :=
  labels.foldl (step limits) s

end Pluton.SnapshotIndex
