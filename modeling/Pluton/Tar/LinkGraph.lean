-- SUMMARY: The check of the link graph: what it walks, how it ends, what unbounded resolution does.
import Mathlib.Data.List.Induction
import Mathlib.Logic.Relation
import Pluton.Tar.Reader
import Pluton.Tar.SafePaths

/-!
# The link graph

`assertManagedLinkGraph` of `ManagedExportPolicy.ts` walks over the components of a link and
its target with a budget, and ends early when it comes back to an entry with the same
components ahead. `Spot` and `move` are the resolution that a POSIX host would do, without
any budget; `Loop` holds the variables of the code's loop, `turn` is one turn of it.
-/
namespace Pluton.Tar

open Posix

/-! ## Resolution -/

/-- The components that were resolved, and those ahead. -/
structure Spot where
  resolved : List String
  pending : List String

inductive Move where
  | arrived
  | next (spot : Spot)
  /-- `..` at the root of the export -/
  | aboveRoot
  /-- the target of a link is absolute -/
  | absolute

section
variable (get : String → Option ManagedExportEntry)

/-- The link that a path is. -/
def linkAt (path : String) : Option ManagedExportEntry := (get path).filter (·.type == .symlink)

/-- One step of the resolution. -/
def move (spot : Spot) : Move :=
  match spot.pending with
  | [] => .arrived
  | part :: pending =>
    if part = "" ∨ part = "." then .next ⟨spot.resolved, pending⟩
    else if part = ".." then
      if spot.resolved = [] then .aboveRoot else .next ⟨spot.resolved.dropLast, pending⟩
    else
      match linkAt get (ofNames (spot.resolved ++ [part])) with
      | none => .next ⟨spot.resolved ++ [part], pending⟩
      | some entry =>
        if Js.startsWith "/" (entry.linkTarget.getD "") then .absolute
        else .next ⟨spot.resolved, Js.split '/' (entry.linkTarget.getD "") ++ pending⟩

def Moves (spot spot' : Spot) : Prop := move get spot = .next spot'

/-- However long the resolution goes on, it applies no `..` at the root and follows no
absolute target. -/
def Contained (spot : Spot) : Prop :=
  ∀ spot', Relation.ReflTransGen (Moves get) spot spot' →
    move get spot' ≠ .aboveRoot ∧ move get spot' ≠ .absolute

/-! ## The loop -/

structure Loop where
  pending : List String
  resolved : List String
  seen : List (String × List String)
  followed : Nat
  steps : Nat

def Loop.start (link : ManagedExportEntry) : Loop where
  pending :=
    (Js.split '/' (dirname link.path)).filter (· != "") ++ Js.split '/' (link.linkTarget.getD "")
  resolved := []
  seen := []
  followed := 0
  steps := 0

def Loop.spot (l : Loop) : Spot := ⟨l.resolved, l.pending⟩

/-- The rest of a turn at a link. -/
def followLink (l : Loop) (pending : List String) (entry : ManagedExportEntry) :
    Loop ⊕ Except Failure Unit :=
  -- a closed cycle, not permission to traverse it
  if l.seen.contains (entry.path, pending) then .inr (.ok ())
  else if l.followed + 1 > 40 then .inr (refuse .symlinkGraphLimit)
  else
    match assertManagedLinkTarget entry.path (entry.linkTarget.getD "") with
    | .error e => .inr (.error e)
    | .ok _ => .inl { l with
        pending := Js.split '/' (entry.linkTarget.getD "") ++ pending,
        seen := (entry.path, pending) :: l.seen,
        followed := l.followed + 1, steps := l.steps + 1 }

/-- One turn of the loop: where it goes on, or how it ends. -/
def turn (l : Loop) : Loop ⊕ Except Failure Unit :=
  match l.pending with
  | [] => .inr (.ok ())
  | part :: pending =>
    if l.steps + 1 > 4096 then .inr (refuse .symlinkGraphLimit)
    else if part = "" ∨ part = "." then .inl { l with pending := pending, steps := l.steps + 1 }
    else if part = ".." then
      if l.resolved = [] then .inr (refuse .unsafeLinkTarget)
      else .inl { l with pending := pending, resolved := l.resolved.dropLast, steps := l.steps + 1 }
    else
      match linkAt get (ofNames (l.resolved ++ [part])) with
      | none =>
          .inl { l with pending := pending, resolved := l.resolved ++ [part], steps := l.steps + 1 }
      | some entry => followLink l pending entry

/-- At most `n` turns. -/
def turns : Nat → Loop → Option (Except Failure Unit)
  | 0, _ => none
  | n + 1, l =>
    match turn get l with
    | .inl l' => turns n l'
    | .inr verdict => some verdict

end

section
variable {get : String → Option ManagedExportEntry} {l l' : Loop} {link : ManagedExportEntry}

/-- The loop ends within its budget, with the verdict of `walkLinkGraph`. -/
theorem turns_eq {fuel : Nat} (h : l.steps + fuel = 4096) :
    turns get (fuel + 1) l =
      some (walkLinkGraph get fuel l.pending l.resolved l.seen l.followed) := by
  induction fuel generalizing l with
  | zero =>
      unfold turns turn
      cases hpending : l.pending with
      | nil => simp [walkLinkGraph]
      | cons part pending =>
          have hover : l.steps + 1 > 4096 := by omega
          simp only [if_pos hover, walkLinkGraph]
  | succ fuel ih =>
      unfold turns turn
      cases hpending : l.pending with
      | nil => simp [walkLinkGraph]
      | cons part pending =>
          -- a turn takes the branches of one call of the recursion
          have hunder : ¬ l.steps + 1 > 4096 := by omega
          simp only [if_neg hunder, walkLinkGraph]
          by_cases hdot : part = "" ∨ part = "."
          · have hdot' : (part == "" || part == ".") = true := by simpa using hdot
            simp only [if_pos hdot, if_pos hdot']
            exact ih (by simp only; omega)
          · have hdot' : ¬ (part == "" || part == ".") = true := by simpa using hdot
            simp only [if_neg hdot, if_neg hdot']
            by_cases hup : part = ".."
            · simp only [hup, beq_self_eq_true, if_true]
              by_cases hroot : l.resolved = []
              · simp [hroot]
              · simp only [if_neg hroot, List.isEmpty_iff]
                exact ih (by simp only; omega)
            · have hup' : ¬ (part == "..") = true := by simpa using hup
              simp only [if_neg hup, if_neg hup', linkAt, ofNames]
              cases hget : get ("/" ++ "/".intercalate (l.resolved ++ [part])) with
              | none =>
                  simp only [Option.filter_none]
                  exact ih (by simp only; omega)
              | some entry =>
                  by_cases hlink : entry.type = .symlink
                  · simp only [hlink, Option.filter_some, beq_self_eq_true, if_true,
                      followLink, bne_self_eq_false, Bool.false_eq_true, if_false]
                    by_cases hseen : l.seen.contains (entry.path, pending) = true
                    · simp only [hseen, if_true]
                    · simp only [hseen, Bool.false_eq_true, if_false]
                      by_cases hmany : l.followed + 1 > 40
                      · simp only [if_pos hmany]
                      · simp only [if_neg hmany]
                        cases htarget : assertManagedLinkTarget entry.path
                          (entry.linkTarget.getD "") with
                        | error e => rfl
                        | ok u => exact ih (by simp only; omega)
                  · have hlink' : (entry.type == .symlink) = false := by simpa using hlink
                    have hother : (entry.type != .symlink) = true := by simpa using hlink
                    simp only [Option.filter_some, hlink', hother,
                      Bool.false_eq_true, if_false, if_true]
                    exact ih (by simp only; omega)

theorem assertManagedLinkGraph_eq (link : ManagedExportEntry) :
    turns get 4097 (.start link) = some (assertManagedLinkGraph link get) := turns_eq rfl

/-! ## Turns and moves -/

def Turns (get : String → Option ManagedExportEntry) (l l' : Loop) : Prop := turn get l = .inl l'

/-- The walk has come to a link that it has met with the same components ahead. -/
def Repeats (get : String → Option ManagedExportEntry) (l : Loop) : Prop :=
  ∃ part pending entry, l.pending = part :: pending ∧ IsName part ∧ part ≠ ".." ∧
    linkAt get (ofNames (l.resolved ++ [part])) = some entry ∧ (entry.path, pending) ∈ l.seen

/-- The parts of a text between slashes hold none. -/
def Plain (parts : List String) : Prop := ∀ part ∈ parts, '/' ∉ part.toList

theorem plain_split (text : String) : Plain (Js.split '/' text) := fun _ => Js.not_mem_of_mem_split

theorem Plain.append {parts others : List String} (h : Plain parts) (h' : Plain others) :
    Plain (parts ++ others) :=
  fun part hpart => (List.mem_append.mp hpart).elim (h part) (h' part)

theorem relative_of_checked {path target : String}
    (h : assertManagedLinkTarget path target = .ok ()) :
    Js.startsWith "/" target = false := by
  unfold assertManagedLinkTarget at h
  cases hpath : managedSnapshotPath path with
  | error e =>
      rw [hpath] at h
      cases h
  | ok value =>
      rw [hpath] at h
      cases hstart : Js.startsWith "/" target with
      | false => rfl
      | true =>
          simp only [hstart, Bool.or_true, Bool.true_or, Except.bind, bind] at h
          cases h

/-- What is new in `seen` after a turn. -/
def Noted (get : String → Option ManagedExportEntry) (l : Loop) (state : String × List String) :
    Prop :=
  ∃ part entry, l.pending = part :: state.2 ∧ IsName part ∧
    linkAt get (ofNames (l.resolved ++ [part])) = some entry ∧ state.1 = entry.path

/-- What one turn does: it moves on as the resolution does, or it ends. -/
structure Turned (get : String → Option ManagedExportEntry) (l l' : Loop) : Prop where
  moves : Moves get l.spot l'.spot
  pending : Plain l'.pending
  resolved : ∀ part ∈ l'.resolved, IsName part
  seen : ∀ state ∈ l'.seen, state ∈ l.seen ∨ Noted get l state

theorem turned (hpending : Plain l.pending) (hresolved : ∀ part ∈ l.resolved, IsName part)
    (h : Turns get l l') :
    Turned get l l' := by
  unfold Turns turn at h
  cases hcase : l.pending with
  | nil =>
      rw [hcase] at h
      cases h
  | cons part pending =>
      rw [hcase] at hpending h
      obtain ⟨hpart, hrest⟩ := List.forall_mem_cons.mp hpending
      dsimp only at h
      split at h
      · cases h
      · split at h
        next hdot =>
          obtain rfl := Sum.inl.inj h
          exact ⟨by simp [Moves, move, Loop.spot, hcase, hdot], hrest, hresolved,
            fun state hstate => .inl hstate⟩
        next hdot =>
          split at h
          -- a step up
          next hup =>
            split at h
            · cases h
            next hroot =>
              obtain rfl := Sum.inl.inj h
              refine ⟨?_, hrest,
                fun part hmem => hresolved part ((List.dropLast_sublist _).subset hmem),
                fun state hstate => .inl hstate⟩
              simp [Moves, move, Loop.spot, hcase, hup, hroot]
          next hup =>
            have hname : IsName part := ⟨fun heq => hdot (.inl heq), hpart⟩
            split at h
            -- a name that is no link
            next hlink =>
              obtain rfl := Sum.inl.inj h
              refine ⟨?_, hrest, ?_, fun state hstate => .inl hstate⟩
              · simp [Moves, move, Loop.spot, hcase, hdot, hup, hlink]
              · intro part' hmem
                rcases List.mem_append.mp hmem with hmem | hmem
                · exact hresolved part' hmem
                · exact List.mem_singleton.mp hmem ▸ hname
            -- a link, whose target goes in front of what is left
            next entry hlink =>
              unfold followLink at h
              split at h
              · cases h
              · split at h
                · cases h
                · cases htarget : assertManagedLinkTarget entry.path (entry.linkTarget.getD "") with
                  | error e =>
                      rw [htarget] at h
                      cases h
                  | ok u =>
                      rw [htarget] at h
                      obtain rfl := Sum.inl.inj h
                      have hrelative := relative_of_checked htarget
                      refine ⟨?_, (plain_split _).append hrest, hresolved, ?_⟩
                      · simp [Moves, move, Loop.spot, hcase, hdot, hup, hlink, hrelative]
                      · intro state hstate
                        rcases List.mem_cons.mp hstate with rfl | hstate
                        · exact .inr ⟨part, entry, hcase, hname, hlink, rfl⟩
                        · exact .inl hstate

/-- The walk ends well where the resolution arrives, or where it repeats itself. -/
theorem turn_ok (hpending : Plain l.pending) (h : turn get l = .inr (.ok ())) :
    move get l.spot = .arrived ∨ Repeats get l := by
  unfold turn at h
  cases hcase : l.pending with
  | nil => exact .inl (by simp [move, Loop.spot, hcase])
  | cons part pending =>
      rw [hcase] at hpending h
      obtain ⟨hpart, hrest⟩ := List.forall_mem_cons.mp hpending
      dsimp only at h
      split at h
      · cases h
      · split at h
        · cases h
        next hdot =>
          split at h
          · split at h <;> cases h
          next hup =>
            split at h
            · cases h
            next entry hlink =>
              unfold followLink at h
              split at h
              next hseen =>
                exact .inr ⟨part, pending, entry, hcase,
                  ⟨fun heq => hdot (.inl heq), hpart⟩, hup, hlink,
                  List.contains_iff_mem.mp hseen⟩
              · split at h
                · cases h
                · cases htarget : assertManagedLinkTarget entry.path (entry.linkTarget.getD "") with
                  | error e =>
                      rw [htarget] at h
                      cases h
                  | ok u =>
                      rw [htarget] at h
                      cases h

/-! ## The walk so far -/

/-- The loop is reached from the start of the walk. -/
def Visits (get : String → Option ManagedExportEntry) (l l' : Loop) : Prop :=
  Relation.ReflTransGen (Turns get) l l'

/-- What the walk keeps: components are plain, and every noted state was met on the way. -/
structure Walked (get : String → Option ManagedExportEntry) (start l : Loop) : Prop where
  pending : Plain l.pending
  resolved : ∀ part ∈ l.resolved, IsName part
  seen : ∀ state ∈ l.seen, ∃ l₀, Visits get start l₀ ∧ Relation.TransGen (Turns get) l₀ l ∧
    (∀ part ∈ l₀.resolved, IsName part) ∧ Noted get l₀ state

theorem plain_filter {parts : List String} (h : Plain parts) (keep : String → Bool) :
    Plain (parts.filter keep) :=
  fun part hpart => h part (List.mem_of_mem_filter hpart)

theorem walked_start (link : ManagedExportEntry) : Walked get (.start link) (.start link) where
  pending := (plain_filter (plain_split _) _).append (plain_split _)
  resolved := nofun
  seen := nofun

theorem Walked.turn {start : Loop} (h : Walked get start l) (hvisits : Visits get start l)
    (hturn : Turns get l l') :
    Walked get start l' := by
  obtain ⟨-, hpending, hresolved, hseen⟩ := turned h.pending h.resolved hturn
  refine ⟨hpending, hresolved, fun state hstate => ?_⟩
  rcases hseen state hstate with hold | hnew
  · obtain ⟨l₀, hbefore, hafter, hnames, hnoted⟩ := h.seen state hold
    exact ⟨l₀, hbefore, hafter.tail hturn, hnames, hnoted⟩
  · exact ⟨l, hvisits, .single hturn, h.resolved, hnew⟩

theorem walked (h : Visits get (.start link) l) :
    Walked get (.start link) l := by
  induction h with
  | refl => exact walked_start link
  | tail hvisits hturn ih => exact ih.turn hvisits hturn

/-- Entries are found under their own paths. -/
def Keyed (get : String → Option ManagedExportEntry) : Prop :=
  ∀ path entry, get path = some entry → entry.path = path

theorem linkAt_eq_some {path : String} {entry : ManagedExportEntry} :
    linkAt get path = some entry ↔ get path = some entry ∧ entry.type = .symlink := by
  rw [linkAt, Option.filter_eq_some_iff, beq_iff_eq]

/-- A walk that repeats itself is where it was before: the entry's path and the components
ahead determine everything that follows. -/
theorem spot_of_repeats (hkeyed : Keyed get) (hvisits : Visits get (.start link) l)
    (h : Repeats get l) :
    ∃ l₀, Visits get (.start link) l₀ ∧ Relation.TransGen (Turns get) l₀ l ∧ l₀.spot = l.spot := by
  have hwalked := walked hvisits
  obtain ⟨part, pending, entry, hcase, hname, -, hlink, hseen⟩ := h
  obtain ⟨l₀, hbefore, hafter, hnames, part₀, entry₀, hcase₀, hname₀, hlink₀, hpath⟩ :=
    hwalked.seen _ hseen
  have hsame : ofNames (l₀.resolved ++ [part₀]) = ofNames (l.resolved ++ [part]) := by
    rw [← hkeyed _ _ (linkAt_eq_some.mp hlink₀).1, ← hkeyed _ _ (linkAt_eq_some.mp hlink).1]
    exact hpath.symm
  have hconcat : ∀ {resolved : List String} {part : String},
      (∀ x ∈ resolved, IsName x) → IsName part →
      ∀ x ∈ resolved ++ [part], IsName x := fun hresolved hpart x hx =>
    (List.mem_append.mp hx).elim (hresolved x) fun hx => List.mem_singleton.mp hx ▸ hpart
  obtain ⟨hresolved, hpart⟩ :=
    List.append_inj'
      (ofNames_inj (hconcat hnames hname₀) (hconcat hwalked.resolved hname) hsame) rfl
  refine ⟨l₀, hbefore, hafter, ?_⟩
  rw [Loop.spot, Loop.spot, hresolved, hcase₀, hcase, (List.cons.inj hpart).1]

/-! ## Soundness -/

/-- A set of spots in which the resolution stays until it arrives. -/
theorem contained_of_closed {I : Spot → Prop}
    (h : ∀ spot, I spot → move get spot = .arrived ∨ ∃ spot', I spot' ∧ Moves get spot spot')
    {spot : Spot} (hspot : I spot) : Contained get spot := by
  have hstay : ∀ spot', Relation.ReflTransGen (Moves get) spot spot' → I spot' := by
    intro spot' hreach
    induction hreach with
    | refl => exact hspot
    | @tail here there _ hmove ih =>
        rcases h _ ih with harrived | ⟨other, hother, hnext⟩
        · exact absurd (harrived.symm.trans hmove) nofun
        · obtain rfl : other = there := Move.next.inj (hnext.symm.trans hmove)
          exact hother
  intro spot' hreach
  rcases h spot' (hstay spot' hreach) with harrived | ⟨other, -, hnext⟩
  · rw [harrived]
    exact ⟨nofun, nofun⟩
  · rw [hnext]
    exact ⟨nofun, nofun⟩

/-- A loop that is on the way of a walk that ends, ends with its verdict. -/
theorem verdict_of_visits {start : Loop} {n : Nat} {verdict v : Except Failure Unit}
    (hvisits : Visits get start l) (hend : turns get n start = some verdict)
    (h : turn get l = .inr v) : v = verdict := by
  induction hvisits using Relation.ReflTransGen.head_induction_on generalizing n with
  | refl =>
      cases n with
      | zero => cases hend
      | succ n =>
          rw [turns, h] at hend
          exact Option.some.inj hend
  | head hturn _ ih =>
      cases n with
      | zero => cases hend
      | succ n =>
          rw [turns, hturn] at hend
          exact ih hend

/-- When the walk returns, the resolution of the components it started with is contained. -/
theorem contained_start (hkeyed : Keyed get) (h : assertManagedLinkGraph link get = .ok ()) :
    Contained get (Loop.start link).spot := by
  have hend : turns get 4097 (.start link) = _ := assertManagedLinkGraph_eq link
  rw [h] at hend
  refine contained_of_closed (I :=
    fun spot => ∃ l, Visits get (.start link) l ∧ l.spot = spot) ?_ ⟨_, .refl, rfl⟩
  -- where the walk goes on, the resolution moves along with it
  have hgo : ∀ l l', Visits get (.start link) l → Turns get l l' →
      ∃ spot', (∃ l, Visits get (.start link) l ∧ l.spot = spot') ∧ Moves get l.spot spot' := by
    intro l l' hvisits hturn
    have hwalked := walked hvisits
    exact ⟨l'.spot, ⟨l', hvisits.tail hturn, rfl⟩,
      (turned hwalked.pending hwalked.resolved hturn).moves⟩
  rintro _ ⟨l, hvisits, rfl⟩
  cases hturn : turn get l with
  | inl l' => exact .inr (hgo l l' hvisits hturn)
  | inr verdict =>
      obtain rfl := verdict_of_visits hvisits hend hturn
      rcases turn_ok (walked hvisits).pending hturn with harrived | hrepeats
      · exact .inl harrived
      · -- it goes on as it did where it was before
        obtain ⟨l₀, hbefore, hafter, hspot⟩ := spot_of_repeats hkeyed hvisits hrepeats
        obtain ⟨l₁, hturn₁, -⟩ := Relation.TransGen.head'_iff.mp hafter
        rw [← hspot]
        exact .inr (hgo l₀ l₁ hbefore hturn₁)

end

/-! ## Export entries -/

/-- A finite set of entries as a preparation leaves them: paths are safe, the targets of links are
checked, and nothing lies below an entry that is no directory. -/
structure ExportEntries where
  entries : List ManagedExportEntry
  nodup : (entries.map (·.path)).Nodup
  safe : ∀ entry ∈ entries, SafePath entry.path
  checked : ∀ entry ∈ entries, entry.type = .symlink →
    assertManagedLinkTarget entry.path (entry.linkTarget.getD "") = .ok ()
  leaves : ∀ entry ∈ entries, ∀ other ∈ entries, namesOf entry.path <+: namesOf other.path →
    entry.path ≠ other.path → entry.type = .dir

namespace ExportEntries

variable {set : ExportEntries} {link : ManagedExportEntry}

def get (set : ExportEntries) (path : String) : Option ManagedExportEntry :=
  set.entries.find? (·.path == path)

theorem keyed : Keyed set.get := fun path entry h => by
  have hfind : set.entries.find? (·.path == path) = some entry := h
  have hfound := List.find?_some hfind
  exact beq_iff_eq.mp hfound

theorem mem_of_get {path : String} {entry : ManagedExportEntry} (h : set.get path = some entry) :
    entry ∈ set.entries :=
  List.mem_of_find?_eq_some h

theorem get_of_mem (h : link ∈ set.entries) : set.get link.path = some link := by
  have hsome : (set.get link.path).isSome = true :=
    List.find?_isSome.mpr ⟨link, h, beq_self_eq_true link.path⟩
  obtain ⟨entry, hentry⟩ := Option.isSome_iff_exists.mp hsome
  rw [hentry, List.inj_on_of_nodup_map set.nodup (mem_of_get hentry) h (keyed _ _ hentry)]

theorem linkAt_above (h : link ∈ set.entries) {names : List String} (hnames : ∀ x ∈ names, IsName x)
    (hne : names ≠ []) (hinit : names <+: namesOf link.path) (hdiff : names ≠ namesOf link.path) :
    linkAt set.get (ofNames names) = none := by
  cases hget : linkAt set.get (ofNames names) with
  | none => rfl
  | some entry =>
      obtain ⟨hentry, htype⟩ := linkAt_eq_some.mp hget
      have hpath := keyed _ _ hentry
      have hown : namesOf entry.path = names := by
        rw [hpath, namesOf_ofNames hne fun x hx => (hnames x hx).2]
      have habove : namesOf entry.path <+: namesOf link.path := by
        rw [hown]
        exact hinit
      have hother : namesOf entry.path ≠ namesOf link.path := by
        rw [hown]
        exact hdiff
      have hdir :=
        set.leaves entry (mem_of_get hentry) link h habove fun heq => hother (congrArg namesOf heq)
      rw [htype] at hdir
      cases hdir

/-- The resolution of a link's own path comes to the walk of its target. -/
theorem contained_link (h : link ∈ set.entries) (hsymlink : link.type = .symlink)
    (hwalk : Contained set.get (Loop.start link).spot) :
    Contained set.get ⟨[], namesOf link.path⟩ := by
  have hsafe := set.safe link h
  obtain ⟨names, name, hpath, hnames, hname⟩ := hsafe.exists_concat
  have hconcat : ∀ x ∈ names ++ [name], IsName x := hpath ▸ hsafe.isName
  have htarget := relative_of_checked (set.checked link h hsymlink)
  have hstart : (Loop.start link).spot = ⟨[], names ++ Js.split '/' (link.linkTarget.getD "")⟩ := by
    have hdirname : dirname link.path = ofNames names := by
      rw [← hsafe.ofNames_namesOf, hpath, dirname_ofNames hnames hname]
    rw [Loop.spot, Loop.start, hdirname, filter_split_ofNames hnames]
  rw [hstart] at hwalk
  -- a directory on the way to the link is resolved alike in both
  have hdown : ∀ front part rest ahead, names = front ++ part :: rest →
      Moves set.get ⟨front, part :: ahead⟩ ⟨front ++ [part], ahead⟩ := by
    intro front part rest ahead hsplit
    have hmem : part ∈ names := hsplit ▸ List.mem_append_right _ List.mem_cons_self
    obtain ⟨hempty, hdot, hup⟩ := hsafe.names part (hpath ▸ List.mem_append_left _ hmem)
    have habove : front ++ [part] <+: names := ⟨rest, by rw [hsplit, List.append_assoc]; rfl⟩
    have hnone := linkAt_above h (fun x hx => hnames x (habove.subset hx)) (by simp)
      (hpath ▸ habove.trans (List.prefix_append _ _)) (fun heq => by
        have hlength := habove.length_le
        rw [heq, hpath, List.length_append, List.length_singleton] at hlength
        omega)
    simp [Moves, move, hempty, hdot, hup, hnone]
  have hreach : ∀ rest front, names = front ++ rest →
      Relation.ReflTransGen (Moves set.get) ⟨[], names ++ Js.split '/' (link.linkTarget.getD "")⟩
        ⟨front, rest ++ Js.split '/' (link.linkTarget.getD "")⟩ := by
    intro rest front hsplit
    induction front using List.reverseRecOn generalizing rest with
    | nil =>
        rw [List.nil_append] at hsplit
        exact hsplit ▸ .refl
    | append_singleton front part ih =>
        rw [List.append_assoc, List.singleton_append] at hsplit
        exact (ih (part :: rest) hsplit).tail (hdown front part rest _ hsplit)
  refine contained_of_closed (I := fun spot =>
    (∃ front rest, names = front ++ rest ∧ spot = ⟨front, rest ++ [name]⟩) ∨
    Relation.ReflTransGen (Moves set.get)
      ⟨[], names ++ Js.split '/' (link.linkTarget.getD "")⟩ spot) ?_
    (.inl ⟨[], names, rfl, by rw [hpath]⟩)
  rintro spot (⟨front, rest, hsplit, rfl⟩ | hspot)
  · cases rest with
    | cons part rest =>
        refine .inr ⟨⟨front ++ [part], rest ++ [name]⟩, .inl ⟨front ++ [part], rest, ?_, rfl⟩,
          hdown front part rest _ hsplit⟩
        rw [hsplit, List.append_assoc, List.singleton_append]
    | nil =>
        -- at the link itself
        rw [List.append_nil] at hsplit
        subst hsplit
        obtain ⟨hempty, hdot, hup⟩ :=
          hsafe.names name (hpath ▸ List.mem_append_right _ (List.mem_singleton_self name))
        have hlink : linkAt set.get (ofNames (names ++ [name])) = some link := by
          rw [← hpath, hsafe.ofNames_namesOf, linkAt_eq_some]
          exact ⟨get_of_mem h, hsymlink⟩
        refine .inr ⟨⟨names, Js.split '/' (link.linkTarget.getD "")⟩,
          .inr (hreach [] names (List.append_nil names).symm), ?_⟩
        simp [Moves, move, hempty, hdot, hup, hlink, htarget]
  · obtain ⟨habove, habsolute⟩ := hwalk spot hspot
    cases hmove : move set.get spot with
    | arrived => exact .inl rfl
    | next spot' => exact .inr ⟨spot', .inr (hspot.tail hmove), hmove⟩
    | aboveRoot => exact absurd hmove habove
    | absolute => exact absurd hmove habsolute

end ExportEntries

/-- What the check of one link of a set of entries guarantees. -/
structure LinkChecked (set : ExportEntries) (link : ManagedExportEntry) : Prop where
  /-- the call ends within its budget of turns -/
  ends : ∃ n ≤ 4097, turns set.get n (.start link) = some (assertManagedLinkGraph link set.get)
  /-- where the walk returns early, it is where it was before, and goes on as it did there -/
  repeats : ∀ l, Visits set.get (.start link) l → Repeats set.get l →
    ∃ l₀, Visits set.get (.start link) l₀ ∧
      Relation.TransGen (Turns set.get) l₀ l ∧ l₀.spot = l.spot
  /-- when the call returns, the unbounded resolution of the link's path stays inside -/
  contained : assertManagedLinkGraph link set.get = .ok () →
    Contained set.get ⟨[], namesOf link.path⟩

/-- The check of the link graph is sound. -/
theorem assertManagedLinkGraph_sound (set : ExportEntries) (link : ManagedExportEntry)
    (hlink : link ∈ set.entries) (hsymlink : link.type = .symlink) : LinkChecked set link where
  ends := ⟨4097, Nat.le_refl _, assertManagedLinkGraph_eq link⟩
  repeats := fun _ hvisits hrepeats => spot_of_repeats ExportEntries.keyed hvisits hrepeats
  contained :=
    fun h => ExportEntries.contained_link hlink hsymlink (contained_start ExportEntries.keyed h)

def sampleLink (path target : String) : ManagedExportEntry where
  path := path
  type := .symlink
  size := 0
  sha256 := none
  linkTarget := some target
  metadata := ⟨"symlink", 0, 0o777, 0, 0, 0, "", "", some target, []⟩

/-- Two links that point at each other. -/
def sampleCycle : ExportEntries where
  entries := [sampleLink "/a/up" "../b", sampleLink "/b" "a/./up"]
  nodup := by decide
  safe := fun entry hentry => safePath_iff.mp <| by
    have hall : ∀ entry ∈ [sampleLink "/a/up" "../b", sampleLink "/b" "a/./up"],
        managedSnapshotPath entry.path = .ok entry.path := by decide +kernel
    exact hall entry hentry
  checked := by decide +kernel
  leaves := by decide +kernel

theorem assertManagedLinkGraph_sound_cycle :
    assertManagedLinkGraph (sampleLink "/a/up" "../b") sampleCycle.get = .ok () ∧
      LinkChecked sampleCycle (sampleLink "/a/up" "../b") :=
  ⟨by decide +kernel,
    assertManagedLinkGraph_sound sampleCycle (sampleLink "/a/up" "../b") List.mem_cons_self rfl⟩

end Pluton.Tar
