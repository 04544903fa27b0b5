-- SUMMARY: What the operations of an export proof keep: known entries, marked paths, summaries.
import Pluton.Tar.Proof

/-!
# What a proof keeps

A batch that is written moves rows from memory to the database, and one that fails is
rolled back. Either way an entry that the proof knows stays known under its path, and a
path that a cursor has marked stays marked until the cursor is released.
-/
namespace Pluton.Tar.ManagedExportProof

section
variable {env : Platform} {P : ManagedExportEntry → Prop} {p q r : ManagedExportProof}
  {e : ManagedExportEntry} {db next : ProofDb}

/-! ## Growing -/

/-- The entries that wait in memory or are in the database. -/
def known (p : ManagedExportProof) : List ManagedExportEntry := p.pending ++ p.db.entries

/-- The entry of a path in the database. -/
def stored (p : ManagedExportProof) (filePath : String) : Option ManagedExportEntry :=
  p.db.entries.find? (·.path == filePath)

/-- The cursor has marked the path, in memory or in the database. -/
def Seen (p : ManagedExportProof) (cursor filePath : String) : Prop :=
  filePath ∈ p.cursorPaths cursor ∨ (cursor, filePath) ∈ p.db.seen

/-- `q` is a later state of the proof `p`. The entries that came to it are of the kind `P`. -/
structure Grows (P : ManagedExportEntry → Prop) (p q : ManagedExportProof) : Prop where
  mode : q.mode = p.mode
  binding : q.binding = p.binding
  counts : q.counts = p.counts
  stored : ∀ {path e}, p.stored path = some e → q.stored path = some e
  lookup : ∀ {path e}, p.lookup path = some e → q.lookup path = some e
  added : ∀ e ∈ q.known, e ∈ p.known ∨ P e

/-- `q` is a later state of the same run: summaries and marks are kept, too. -/
structure Carries (P : ManagedExportEntry → Prop) (p q : ManagedExportProof) :
    Prop extends Grows P p q where
  proofs : q.db.proofs = p.db.proofs
  seen : ∀ {cursor path}, p.Seen cursor path → q.Seen cursor path

theorem Grows.refl (p : ManagedExportProof) : p.Grows P p :=
  ⟨rfl, rfl, rfl, fun h => h, fun h => h, fun _ => .inl⟩

theorem Grows.trans (hpq : p.Grows P q) (hqr : q.Grows P r) : p.Grows P r where
  mode := hqr.mode.trans hpq.mode
  binding := hqr.binding.trans hpq.binding
  counts := hqr.counts.trans hpq.counts
  stored := fun h => hqr.stored (hpq.stored h)
  lookup := fun h => hqr.lookup (hpq.lookup h)
  added := fun e he => (hqr.added e he).elim (hpq.added e) .inr

theorem Carries.refl (p : ManagedExportProof) : p.Carries P p :=
  ⟨Grows.refl p, rfl, fun h => h⟩

theorem Carries.trans (hpq : p.Carries P q) (hqr : q.Carries P r) : p.Carries P r :=
  ⟨hpq.toGrows.trans hqr.toGrows, hqr.proofs.trans hpq.proofs, fun h => hqr.seen (hpq.seen h)⟩

theorem Carries.summary (h : p.Carries P q) : q.summary = p.summary := by
  unfold ManagedExportProof.summary
  rw [h.proofs, h.mode, h.binding]

theorem Grows.get (h : p.Grows P q) {path : String} (hget : p.get path = some e) :
    q.get path = some e := by
  unfold ManagedExportProof.get at hget ⊢
  rw [Option.filter_eq_some_iff] at hget ⊢
  exact ⟨h.lookup hget.1, h.mode.symm ▸ hget.2⟩

/-! ## Inserting -/

theorem insertEntry_ok {entry : ManagedExportEntry} (h : insertEntry env db entry = .ok next) :
    next = { db with entries := db.entries ++ [entry] } ∧
    ∀ x ∈ db.entries, x.path ≠ entry.path := by
  unfold insertEntry at h
  dsimp only at h
  split at h
  · cases h
  next hfree =>
    split at h
    · cases h
    · cases h
      refine ⟨rfl, fun x hx heq => hfree ?_⟩
      exact List.any_eq_true.mpr ⟨x, hx, beq_iff_eq.mpr heq⟩

theorem insertEntries_ok {entries : List ManagedExportEntry}
    (h : entries.foldlM (insertEntry env) db = .ok next) :
    next = { db with entries := db.entries ++ entries } ∧
      ∀ entry ∈ entries, ∀ x ∈ db.entries, x.path ≠ entry.path := by
  induction entries generalizing db with
  | nil =>
      cases h
      simp
  | cons entry entries ih =>
      rw [List.foldlM_cons] at h
      cases hmid : insertEntry env db entry with
      | error e =>
          rw [hmid] at h
          cases h
      | ok mid =>
          rw [hmid] at h
          obtain ⟨rfl, hfree⟩ := insertEntry_ok hmid
          obtain ⟨rfl, hrest⟩ := ih h
          refine ⟨by simp, fun e he x hx => ?_⟩
          rcases List.mem_cons.mp he with rfl | he
          · exact hfree x hx
          · exact hrest e he x (List.mem_append_left _ hx)

theorem insertSeen_ok {row : String × String} (h : insertSeen env db row = .ok next) :
    next = { db with seen := db.seen ++ [row] } := by
  unfold insertSeen at h
  dsimp only at h
  split at h
  · cases h
  · split at h
    · cases h
    · cases h
      rfl

theorem insertSeenRows_ok {rows : List (String × String)}
    (h : rows.foldlM (insertSeen env) db = .ok next) :
    next = { db with seen := db.seen ++ rows } := by
  induction rows generalizing db with
  | nil =>
      cases h
      simp
  | cons row rows ih =>
      rw [List.foldlM_cons] at h
      cases hmid : insertSeen env db row with
      | error e =>
          rw [hmid] at h
          cases h
      | ok mid =>
          rw [hmid] at h
          cases insertSeen_ok hmid
          rw [ih h]
          simp

/-! ## Flushing -/

theorem find?_append_of_some {l l' : List ManagedExportEntry} {f : ManagedExportEntry → Bool}
    (h : l.find? f = some e) : (l ++ l').find? f = some e := by
  rw [List.find?_append, h]
  rfl

/-- An entry that waits in memory is not stored under its path yet, or the batch fails. -/
theorem lookup_written {entries pending : List ManagedExportEntry} {path : String}
    (hfree : ∀ entry ∈ pending, ∀ x ∈ entries, x.path ≠ entry.path)
    (h : (pending.find? (·.path == path)).or (entries.find? (·.path == path)) = some e) :
    (entries ++ pending).find? (·.path == path) = some e := by
  rw [List.find?_append]
  cases hpending : pending.find? (·.path == path) with
  | none =>
      rw [hpending, Option.none_or] at h
      rw [h]
      rfl
  | some e' =>
      rw [hpending, Option.some_or] at h
      obtain rfl := Option.some.inj h
      have hpath : e'.path = path := by simpa using List.find?_some hpending
      have hnone : entries.find? (·.path == path) = none := by
        rw [List.find?_eq_none]
        intro x hx heq
        exact hfree e' (List.mem_of_find?_eq_some hpending) x hx
          ((beq_iff_eq.mp heq).trans hpath.symm)
      rw [hnone]
      rfl

theorem mem_seenRows {cursor path : String} (h : path ∈ p.cursorPaths cursor) :
    (cursor, path) ∈ p.seenRows := by
  unfold cursorPaths at h
  cases hlookup : p.cursors.lookup cursor with
  | none =>
      rw [hlookup] at h
      cases h
  | some paths =>
      rw [hlookup] at h
      have hmem : (cursor, paths) ∈ p.cursors := by
        obtain ⟨l, l', hsplit, _⟩ := List.lookup_eq_some_iff.mp hlookup
        rw [hsplit]
        simp
      exact List.mem_flatMap.mpr ⟨_, hmem, List.mem_map_of_mem h⟩

theorem flush_ends : (p.flush env).Ends
    (fun q => p.Carries P q ∧ q.pending = [] ∧ q.db.entries = p.db.entries ++ p.pending)
    fun refusal => refusal.proof = p := by
  unfold flush
  cases hinsert : p.pending.foldlM (insertEntry env) p.db >>=
    p.seenRows.foldlM (insertSeen env) with
  | error e => cases e <;> rfl
  | ok db =>
      cases hentries : p.pending.foldlM (insertEntry env) p.db with
      | error e =>
          rw [hentries] at hinsert
          cases hinsert
      | ok mid =>
          rw [hentries] at hinsert
          obtain ⟨rfl, hfree⟩ := insertEntries_ok hentries
          cases insertSeenRows_ok hinsert
          refine ⟨⟨⟨rfl, rfl, rfl, find?_append_of_some, lookup_written hfree, fun e he => .inl ?_⟩,
            rfl, ?_⟩,
            rfl, rfl⟩
          · have hstored : e ∈ p.db.entries ++ p.pending := he
            exact List.mem_append.mpr (List.mem_append.mp hstored).symm
          · intro cursor path hseen
            right
            rcases hseen with hpending | hstored
            · exact List.mem_append_right _ (mem_seenRows hpending)
            · exact List.mem_append_left _ hstored

/-! ## Marking and appending -/

theorem cursorPaths_mapSet_self (paths : List String) (cursor : String) :
    ({ p with cursors := Js.mapSet p.cursors cursor paths } : ManagedExportProof).cursorPaths
    cursor =
      paths := by
  simp [cursorPaths, Js.lookup_mapSet_self]

theorem cursorPaths_mapSet_of_ne (paths : List String) {cursor other : String}
    (h : other ≠ cursor) :
    ({ p with cursors := Js.mapSet p.cursors cursor paths } : ManagedExportProof).cursorPaths
    other =
      p.cursorPaths other := by
  simp [cursorPaths, Js.lookup_mapSet_of_ne p.cursors paths h]

theorem carries_mark (cursor filePath : String) :
    p.Carries P { p with
      cursors := Js.mapSet p.cursors cursor (p.cursorPaths cursor ++ [filePath]) } := by
  refine ⟨⟨rfl, rfl, rfl, fun h => h, fun h => h, fun _ => .inl⟩, rfl, ?_⟩
  intro other path hseen
  refine hseen.imp_left fun hpending => ?_
  by_cases hother : other = cursor
  · subst hother
    rw [cursorPaths_mapSet_self]
    exact List.mem_append_left _ hpending
  · rw [cursorPaths_mapSet_of_ne _ hother]
    exact hpending

theorem seen_ends (cursor filePath : String) : (p.seen env cursor filePath).Ends
    (fun q => p.Carries P q ∧ ¬p.Seen cursor filePath ∧ q.Seen cursor filePath)
    fun refusal => p.Carries P refusal.proof := by
  unfold seen
  apply Except.Ends.ite
  · exact fun _ => Carries.refl p
  intro hnew
  have hfree : ¬p.Seen cursor filePath := by
    simpa [Seen, not_or] using hnew
  have hmarked : Seen { p with
      cursors := Js.mapSet p.cursors cursor (p.cursorPaths cursor ++ [filePath]) }
      cursor filePath := by
    left
    rw [cursorPaths_mapSet_self]
    simp
  have hcarries : p.Carries P _ := carries_mark cursor filePath
  apply Except.Ends.ite
  · intro _
    apply flush_ends.mono
    · exact fun q hq => ⟨hcarries.trans hq.1, hfree, hq.1.seen hmarked⟩
    · rintro refusal hrefusal
      exact hrefusal.symm ▸ hcarries
  · exact fun _ => ⟨hcarries, hfree, hmarked⟩

/-- An entry that waits in memory beside those that wait there. -/
theorem lookup_pending (entry : ManagedExportEntry) (bytes : Nat) {path : String}
    (hnew : p.lookup entry.path = none) (h : p.lookup path = some e) :
    lookup { p with pending := p.pending ++ [entry], pendingBytes := bytes } path = some e := by
  have hne : (entry.path == path) = false := by
    apply beq_false_of_ne
    intro heq
    rw [heq, h] at hnew
    cases hnew
  unfold lookup at h ⊢
  dsimp only
  rw [List.find?_append, List.find?_singleton, hne]
  simpa using h

theorem lookup_pending_self (entry : ManagedExportEntry) (bytes : Nat)
    (hnew : p.lookup entry.path = none) :
    lookup { p with pending := p.pending ++ [entry],
                    pendingBytes := bytes } entry.path = some entry := by
  have hpending : p.pending.find? (·.path == entry.path) = none := (Option.or_eq_none_iff.mp hnew).1
  unfold lookup
  dsimp only
  rw [List.find?_append, hpending, List.find?_singleton]
  simp

/-- An entry is known from then on, or it contradicts the one that is. -/
theorem append_ends {entry : ManagedExportEntry} (hentry : P entry) : (p.append env entry).Ends
    (fun q => p.Carries P q ∧ q.lookup entry.path = some entry)
    fun refusal => p.Carries P refusal.proof := by
  unfold append
  cases hlookup : p.lookup entry.path with
  | some existing =>
      apply Except.Ends.ite
      · exact fun _ => Carries.refl p
      · intro hsame
        have heq : existing = entry := by simpa using hsame
        exact ⟨Carries.refl p, heq ▸ hlookup⟩
  | none =>
      have hadded : ∀ e ∈ (p.pending ++ [entry]) ++ p.db.entries, e ∈ p.known ∨
          P e := fun e he => by
        rcases List.mem_append.mp he with hpending | hstored
        · refine (List.mem_append.mp hpending).imp (List.mem_append_left _) fun hlast => ?_
          rwa [List.mem_singleton.mp hlast]
        · exact .inl (List.mem_append_right _ hstored)
      have hcarries : p.Carries P { p with
          pending := p.pending ++ [entry]
          pendingBytes := p.pendingBytes + Js.byteLength (Js.stringify entry.fields) } :=
        ⟨⟨rfl, rfl, rfl, fun h => h, lookup_pending entry _ hlookup, hadded⟩, rfl, fun h => h⟩
      have hself := lookup_pending_self entry
        (p.pendingBytes + Js.byteLength (Js.stringify entry.fields)) hlookup
      apply Except.Ends.ite
      · intro _
        apply flush_ends.mono
        · exact fun q hq => ⟨hcarries.trans hq.1, hq.1.lookup hself⟩
        · rintro refusal hrefusal
          exact hrefusal.symm ▸ hcarries
      · exact fun _ => ⟨hcarries, hself⟩

/-! ## Completion -/

/-- Every link that is included passes the check of the link graph. -/
def LinksChecked (p : ManagedExportProof) : Prop :=
  ∀ entry ∈ p.entries, entry.type = .symlink → assertManagedLinkGraph entry p.get = .ok ()

theorem LinksChecked.congr (h : p.LinksChecked) (hmode : q.mode = p.mode)
    (hpending : q.pending = p.pending) (hentries : q.db.entries = p.db.entries) :
    q.LinksChecked := by
  have hlookup : q.lookup = p.lookup := by
    funext path
    rw [ManagedExportProof.lookup, ManagedExportProof.lookup, hpending, hentries]
  have hget : q.get = p.get := by
    funext path
    rw [ManagedExportProof.get, ManagedExportProof.get, hlookup, hmode]
  have hsame : q.entries = p.entries := by
    rw [ManagedExportProof.entries, ManagedExportProof.entries, hmode, hentries]
  rw [LinksChecked, hget, hsame]
  exact h

theorem validateCompleteness_ends : (p.validateCompleteness env).Ends
    (fun q => p.Carries P q ∧ q.pending = [] ∧ q.LinksChecked) fun refusal =>
      p.Carries P refusal.proof := by
  unfold validateCompleteness
  have hflush : (p.flush env).Ends (fun q => p.Carries P q ∧ q.pending = [])
      fun refusal => p.Carries P refusal.proof :=
    flush_ends.mono (fun q hq => ⟨hq.1, hq.2.1⟩) fun _ h => h.symm ▸ Carries.refl p
  refine hflush.bind fun q hq => ?_
  -- a link's walk throws with the proof as it is
  have hwalk : (q.entries.forM fun entry =>
      if entry.type == .symlink then q.attempt (assertManagedLinkGraph entry q.get)
        else pure ()).Ends
      (fun _ => True) fun refusal => p.Carries P refusal.proof := by
    apply Except.ends_forM
    intro entry _
    exact Except.Ends.ite (fun _ => attempt_ends (fun _ _ => trivial) fun _ => hq.1) fun _ =>
      trivial
  refine Except.ends_bind (fun _ hchecked => ?_) fun refusal hrefused => hwalk.of_error hrefused
  refine Except.Ends.ite (fun _ => hq.1) fun _ => ⟨hq.1, hq.2, fun entry hentry hlink => ?_⟩
  have hentry := Except.forM_eq_ok.mp hchecked entry hentry
  rw [if_pos (beq_iff_eq.mpr hlink)] at hentry
  exact Except.mapError_eq_ok.mp hentry

variable (P) in
/-- The summary that completes a proof, and the proof that holds it. -/
theorem finish_ends (archiveSha256 : String) (archiveBytes : Nat) :
    (p.finish env archiveSha256 archiveBytes).Ends
      (fun result => p.Grows P result.2 ∧ result.2.pending = [] ∧ result.2.summary = some result.1 ∧
        result.1.includedEntries = total result.2.includedByType ∧ result.2.LinksChecked)
      fun refusal => p.Carries P refusal.proof := by
  unfold finish
  refine validateCompleteness_ends.bind fun q hq => ?_
  obtain ⟨hq, hnone, hlinks⟩ := hq
  have hflush : (q.flush env).Ends (fun q' => p.Carries P q' ∧ q'.pending = [] ∧ q'.LinksChecked)
      fun refusal => p.Carries P refusal.proof :=
    flush_ends.mono (fun q' hq' => ⟨hq.trans hq'.1, hq'.2.1, hlinks.congr hq'.1.mode
      (hq'.2.1.trans hnone.symm) (hq'.2.2.trans (by rw [hnone, List.append_nil]))⟩) fun _ h =>
        h.symm ▸ hq
  refine hflush.bind fun q' hq' => ?_
  apply Except.Ends.ite
  · exact fun _ => hq'.1
  · intro _
    obtain ⟨hcarries, hpending, hlinks⟩ := hq'
    refine ⟨⟨hcarries.mode, hcarries.binding, hcarries.counts, hcarries.stored,
      hcarries.lookup, hcarries.added⟩,
      hpending, ?_, rfl, hlinks.congr rfl rfl rfl⟩
    have hnone : (q'.db.proofs.filter (·.mode != q'.mode)).find? (·.mode == q'.mode) = none := by
      rw [List.find?_eq_none]
      intro row hrow
      have hmode := (List.mem_filter.mp hrow).2
      simpa using hmode
    simp only [summary, List.find?_append, hnone]
    simp

/-! ## Before and after a run -/

theorem grows_createCursor (p : ManagedExportProof) (cursor : String) :
    p.Grows P (p.createCursor cursor) :=
  ⟨rfl, rfl, rfl, fun h => h, fun h => h, fun _ => .inl⟩

theorem grows_releaseCursor (p : ManagedExportProof) (cursor : String) :
    p.Grows P (p.releaseCursor cursor) :=
  ⟨rfl, rfl, rfl, fun h => h, fun h => h, fun _ => .inl⟩

variable (P) in
/-- A preparation starts only without a summary, and drops what another binding left. -/
theorem reset_ends : p.reset.Ends (fun q => p.Grows P q ∧ p.summary = none ∧ q.summary = none)
    fun refusal => refusal.proof = p := by
  unfold reset
  apply Except.Ends.ite
  · exact fun _ => rfl
  · intro hnone
    refine ⟨⟨rfl, rfl, rfl, fun h => h, fun h => h, fun _ => .inl⟩, by simpa using hnone, ?_⟩
    have hrow : (p.db.proofs.filter (·.mode != p.mode)).find? (·.mode == p.mode) = none := by
      rw [List.find?_eq_none]
      intro row hrow
      have hmode := (List.mem_filter.mp hrow).2
      simpa using hmode
    simp [summary, hrow]

end

end Pluton.Tar.ManagedExportProof
