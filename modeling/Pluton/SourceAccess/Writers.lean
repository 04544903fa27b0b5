-- SUMMARY: What the writers of the source access files write, their readers accept.
import Mathlib.Algebra.Order.BigOperators.Group.List
import Mathlib.Algebra.Order.Ring.Nat
import Pluton.SourceAccess.Durability

/-!
# Writers and readers

The limits of the readers are over unions and sizes that no writer computes as such. A
host operation succeeds only after it has read its own policy back; a selection is made
of values each of which was checked, and is small enough for its reader whatever they are.
-/
namespace Pluton.SourceAccess

open Disk (Entry Written)
open Disk.Entry (settled all_settled all_set)
open Except (bind_eq_ok map_eq_ok)

variable {ctx : Context} {w : World} {s : State} {p : Pending} {policy : HostPolicy}

/-! ## Sizes -/

theorem utf8Size_le_three {ch : Char} (h : ch.toNat < 0x10000) : ch.utf8Size ≤ 3 := by
  have hfour : ch.utf8Size ≠ 4 := fun hfour => by
    have hval := Char.utf8Size_eq_four_iff.mp hfour
    rw [UInt32.lt_iff_toNat_lt] at hval
    exact absurd h (Nat.not_lt.mpr hval)
  have hle := ch.utf8Size_le_four
  omega

/-- In a character of a source path only the double quote is escaped. -/
theorem escaped_size_le {ch : Char} (h : isRefused ch = false) :
    ((Js.escaped ch).map Char.utf8Size).sum ≤ 3 * (if ch.toNat < 0x10000 then 1 else 2) := by
  simp only [isRefused, Bool.or_eq_false_iff, decide_eq_false_iff_not, Nat.not_le,
    beq_eq_false_iff_ne] at h
  obtain ⟨⟨⟨hcontrol, -⟩, hslash⟩, -⟩ := h
  by_cases hquote : ch = '"'
  · subst hquote
    decide
  · have hplain : Js.escaped ch = [ch] := by
      unfold Js.escaped
      simp only [beq_eq_false_iff_ne.mpr hquote, beq_eq_false_iff_ne.mpr hslash]
      simp only [Bool.false_eq_true, if_false, beq_iff_eq]
      repeat rw [if_neg (by omega)]
    rw [hplain]
    simp only [List.map_cons, List.map_nil, List.sum_cons, List.sum_nil, Nat.add_zero]
    split
    · rename_i hsmall
      exact utf8Size_le_three hsmall
    · exact Nat.le_trans ch.utf8Size_le_four (by decide)

theorem byteLength_quote_root {root : String} (h : isSourcePath root = true) :
    Js.byteLength (Js.quote root) ≤ 3074 := by
  simp only [isSourcePath, Bool.and_eq_true, Bool.not_eq_true', decide_eq_true_eq,
    List.any_eq_false] at h
  obtain ⟨⟨⟨⟨-, hlength⟩, hplain⟩, -⟩, -⟩ := h
  have hbody : ∀ chars : List Char, (∀ ch ∈ chars, isRefused ch = false) →
      (chars.map fun ch => ((Js.escaped ch).map Char.utf8Size).sum).sum ≤
        3 * (chars.map fun ch => if ch.toNat < 0x10000 then 1 else 2).sum := by
    intro chars hchars
    induction chars with
    | nil => exact Nat.le_refl 0
    | cons ch chars ih =>
        rw [List.forall_mem_cons] at hchars
        have hone := escaped_size_le hchars.1
        have hrest := ih hchars.2
        simp only [List.map_cons, List.sum_cons]
        omega
  have hchars := hbody root.toList fun ch hch => by simpa using hplain ch hch
  rw [Js.byteLength_quote]
  unfold Js.length maxPath at hlength
  omega

theorem byteLength_rootsText {roots : List String} (hlen : roots.length ≤ maxRoots)
    (hroots : ∀ root ∈ roots, isSourcePath root = true) :
    Js.byteLength (rootsText roots) ≤ 98402 := by
  have hsum :
      ((roots.map Js.quote).map fun item => Js.byteLength item + 1).sum ≤ roots.length * 3075 := by
    rw [List.map_map]
    refine (List.sum_le_card_nsmul _ 3075 fun size hsize => ?_).trans (by simp)
    obtain ⟨root, hroot, rfl⟩ := List.mem_map.mp hsize
    exact Nat.succ_le_succ (byteLength_quote_root (hroots root hroot))
  have hle := Js.byteLength_stringifyArray_le (roots.map Js.quote)
  unfold maxRoots at hlen
  unfold rootsText
  omega

theorem byteLength_epochsText {epochs : List (String × Nat)} (hlen : epochs.length ≤ maxRoots)
    (hepochs : ∀ entry ∈ epochs, isSourcePath entry.1 = true ∧ entry.2 ≤ Js.maxSafeInteger) :
    Js.byteLength (epochsText epochs) ≤ 100482 := by
  have hsum : ((epochs.map fun entry => (entry.1, toString entry.2)).map fun field =>
      Js.byteLength (Js.quote field.1) + Js.byteLength field.2 + 2).sum ≤ epochs.length * 3140 := by
    rw [List.map_map]
    refine (List.sum_le_card_nsmul _ 3140 fun size hsize => ?_).trans (by simp)
    obtain ⟨entry, hentry, rfl⟩ := List.mem_map.mp hsize
    have hkey := byteLength_quote_root (hepochs entry hentry).1
    have hvalue := Js.byteLength_toString_le (hepochs entry hentry).2
    dsimp only [Function.comp_apply]
    omega
  have hle := Js.byteLength_stringify_le (epochs.map fun entry => (entry.1, toString entry.2))
  unfold maxRoots at hlen
  unfold epochsText
  omega

/-- A selection of admitted values is small enough for its reader. -/
theorem fits_selection {sel : Selection} (hagent : Js.byteLength (Js.quote sel.agentId) ≤ 1024)
    (hversion : sel.effectiveVersion ≤ Js.maxSafeInteger) (hid : isRequestId sel.requestId = true)
    (hrevision : isRevision sel.hostPolicyRevision = true) (hlen : sel.roots.length ≤ maxRoots)
    (hroots : ∀ root ∈ sel.roots, isSourcePath root = true)
    (hkeys : sel.hostRootVersions.length ≤ maxRoots)
    (hepochs : ∀ entry ∈ sel.hostRootVersions, isSourcePath entry.1 = true ∧
      entry.2 ≤ Js.maxSafeInteger) :
    fits sel.text = true := by
  have hidSize := Js.byteLength_quote_le sel.requestId
  have hrevisionSize := Js.byteLength_quote_le sel.hostPolicyRevision
  have hversionSize := Js.byteLength_toString_le hversion
  have hrootsSize := byteLength_rootsText hlen hroots
  have hepochsSize := byteLength_epochsText hkeys hepochs
  simp only [isRequestId, Bool.and_eq_true, decide_eq_true_eq] at hid
  simp only [isRevision, Bool.and_eq_true, beq_iff_eq] at hrevision
  have hnames : Js.byteLength (Js.quote "version") + Js.byteLength (Js.quote "agentId") +
      Js.byteLength (Js.quote "effectiveVersion") + Js.byteLength (Js.quote "requestId") +
      Js.byteLength (Js.quote "hostPolicyRevision") + Js.byteLength (Js.quote "roots") +
      Js.byteLength (Js.quote "hostRootVersions") + Js.byteLength "1" +
        Js.byteLength "\n" ≤ 200 := by
    decide +kernel
  have hle : Js.byteLength sel.text ≤ _ := Js.byteLength_stringify_le _
  simp only [List.map_cons, List.map_nil, List.sum_cons, List.sum_nil] at hle
  unfold fits maxFile
  rw [Js.byteLength_append, decide_eq_true_eq]
  omega

theorem fits_anchor (ctx : Context) : fits (anchorText ctx.agentId) = true := by
  have hagent := ctx.agentId_short
  have hnames : Js.byteLength (Js.quote "version") + Js.byteLength (Js.quote "agentId") +
      Js.byteLength "1" + Js.byteLength "\n" ≤ 200 := by
    decide +kernel
  have hle : Js.byteLength (anchorText ctx.agentId) ≤ _ := Js.byteLength_stringify_le _
  simp only [List.map_cons, List.map_nil, List.sum_cons, List.sum_nil] at hle
  unfold fits maxFile
  rw [Js.byteLength_append, decide_eq_true_eq]
  omega

/-! ## Selections -/

theorem lookup_of_mem {epochs : List (String × Nat)} (hkeys : (epochs.map Prod.fst).Nodup)
    {entry : String × Nat} (h : entry ∈ epochs) : epochs.lookup entry.1 = some entry.2 := by
  induction epochs with
  | nil => cases h
  | cons head rest ih =>
      rw [List.map_cons, List.nodup_cons] at hkeys
      rcases List.mem_cons.mp h with rfl | hrest
      · exact List.lookup_cons_self
      · have hne : entry.1 ≠ head.1 := fun heq => hkeys.1 (heq ▸ List.mem_map_of_mem hrest)
        rw [List.lookup_cons, beq_false_of_ne hne]
        exact ih hkeys.2 hrest

theorem rootEpoch_le (hvalid : policy.host.Valid ctx) {root : String} {epoch : Nat}
    (h : rootEpoch policy root = some epoch) : epoch ≤ Js.maxSafeInteger ∧
      (policy.staticRoots.any (sourcePathWithin · root) = false →
        epoch ≤ policy.host.hostVersion) := by
  have hdated : ∀ {roots : List String} {epochs : List (String × Nat)} {parent : String},
      Dated policy.host.hostVersion roots epochs →
      roots.find? (sourcePathWithin · root) = some parent →
      epochs.lookup parent = some epoch →
      epoch ≤ Js.maxSafeInteger ∧ epoch ≤ policy.host.hostVersion := by
    intro roots epochs parent hdated hfind hlookup
    obtain ⟨found, hfound, -, hsafe, hle⟩ := hdated.epoch parent (List.mem_of_find?_eq_some hfind)
    obtain rfl : found = epoch := Option.some.inj (hfound.symm.trans hlookup)
    exact ⟨hsafe, hle⟩
  unfold rootEpoch at h
  split at h
  · rename_i hstatic
    cases h
    exact ⟨Nat.zero_le _, fun hnone => by rw [hstatic] at hnone; cases hnone⟩
  · split at h
    · rename_i parent hfind
      obtain ⟨hsafe, hle⟩ := hdated hvalid.dated hfind h
      exact ⟨hsafe, fun _ => hle⟩
    · split at h
      · rename_i parent hfind
        obtain ⟨epochs, hepochs, hlookup⟩ := Option.bind_eq_some_iff.mp h
        obtain ⟨d, hd, rfl⟩ := Option.map_eq_some_iff.mp hepochs
        have hroots : d.delegatedRoots.find? (sourcePathWithin · root) = some parent := by
          simp only [HostApproval.delegated, hd] at hfind
          split at hfind
          · exact hfind
          · cases hfind
        obtain ⟨hsafe, hle⟩ := hdated (hvalid.delegated d hd) hroots hlookup
        exact ⟨hsafe, fun _ => hle⟩
      · cases h

/-- What the checks of `apply` let through, the reader of the selection accepts. -/
theorem Bound.accepted (h : Bound ctx w s p policy) :
    checkSelection ctx (p.selection ctx) = .ok () ∧ fits (p.selection ctx).text = true := by
  obtain ⟨-, hlen, hpaths⟩ := validateSourcePaths_ok h.paths
  obtain ⟨hread, -, -, -, -⟩ := hostPolicy_ok h.read
  have hvalid := (readHost_ok hread).1
  have hnodup : (p.hostRootVersions.map Prod.fst).Nodup :=
    h.keys ▸ nodup_of_nonoverlapping h.disjoint
  have hcount : p.hostRootVersions.length = p.input.roots.length := by
    rw [← h.keys, List.length_map]
  have hsafe : p.input.expectedVersion + 1 ≤ Js.maxSafeInteger := h.safe.le
  have hallowed : ∀ root ∈ p.input.roots,
      isNewSourceRootAllowed root = true ∨ root ∈ ctx.allowedRoots := by
    intro root hroot
    have hnew : newRootAllowed ctx root = true →
        isNewSourceRootAllowed root = true := fun hnew => by
      simp only [newRootAllowed, Bool.and_eq_true] at hnew
      exact hnew.1.1
    rcases h.allowed root hroot with hnew' | happroved
    · exact .inl (hnew hnew')
    · rcases List.mem_append.mp (Js.mem_sortedSet.mp happroved) with hstatic | hhost
      · exact .inr hstatic
      · exact .inl (hnew (hvalid.roots root hhost))
  have hepochs : ∀ root ∈ p.input.roots,
      ∃ epoch, p.hostRootVersions.lookup root = some epoch ∧ epoch ≤ Js.maxSafeInteger := by
    intro root hroot
    obtain ⟨epoch, hepoch, hlookup⟩ := h.epochs root hroot
    exact ⟨epoch, hlookup, (rootEpoch_le hvalid hepoch).1⟩
  constructor
  · simp only [checkSelection, bind_eq_ok, Except.refuseIf_eq_ok, assertNonoverlappingRoots_ok]
    refine ⟨(), ?_, (), ?_, p.input.roots, h.paths, (), h.disjoint, (), ?_, ?_⟩
    · simp [Pending.selection, positive, hsafe]
    · simp [Pending.selection, h.requestId, h.revision]
    · simpa [Pending.selection] using hallowed
    · simp only [Bool.not_eq_false', Bool.and_eq_true, beq_iff_eq,
        List.all_eq_true, Option.any_eq_true, decide_eq_true_eq]
      exact ⟨hcount, fun root hroot => hepochs root hroot⟩
  · refine fits_selection ctx.agentId_short hsafe h.requestId h.revision hlen hpaths
      (hcount ▸ hlen) ?_
    intro entry hentry
    have hroot : entry.1 ∈ p.input.roots := h.keys ▸ List.mem_map_of_mem hentry
    obtain ⟨epoch, hlookup, hle⟩ := hepochs entry.1 hroot
    rw [lookup_of_mem hnodup hentry] at hlookup
    cases hlookup
    exact ⟨hpaths _ hroot, hle⟩

/-- A selection that is seen was written by an `apply` of the run, and its reader takes it. -/
theorem selection_accepted (policy : Option PolicyFile) (events : List Event) {sel : Selection}
    (hsel : (run ctx (start policy) events).data.selection.now = some sel)
    (hdir : w.stateDirectory = .ok ()) (hfile : w.stateFile = .ok ()) :
    selection ctx w (run ctx (start policy) events).data = .ok (some sel) := by
  have hgood : Good ctx _ _ := good_run policy events
  obtain ⟨p, ⟨before, w', payload, after, -, hready⟩, rfl⟩ := hgood.files.selection.1 sel hsel
  obtain ⟨host, hbound⟩ := checkApply_ready hready
  obtain ⟨hcheck, hfits⟩ := hbound.accepted
  have hanchor := hgood.files.anchored.resolve_left fun hnone => by
    have hnow := hnone.1
    rw [hsel] at hnow
    cases hnow
  simp only [selection, bind_eq_ok]
  refine ⟨(), hdir, some ctx.agentId, ?_, some (p.selection ctx), ?_, ?_⟩
  · simp only [hanchor, Disk.Entry.now_settled, readAnchor, bind_eq_ok,
      Except.refuseIf_eq_ok, Except.pure_eq_ok]
    exact ⟨(), hfile, (), by simp [fits_anchor], trivial⟩
  · simp only [hsel, readSelection, bind_eq_ok, Except.refuseIf_eq_ok, Except.pure_eq_ok]
    exact ⟨(), hfile, (), by simp [hfits], trivial⟩
  · simp only [anchoredSelection, bind_eq_ok, Except.refuseIf_eq_ok, Except.pure_eq_ok]
    exact ⟨(), by simp, (), hcheck, trivial⟩

/-! ## Host operations -/

theorem readHost_world {file : Option PolicyFile} {h : HostApproval} {w' : World}
    (hread : readHost ctx w file = .ok h) (howned : w'.rootOwned = .ok ()) :
    readHost ctx w' file = .ok h := by
  match file with
  | none => exact hread
  | some .malformed =>
      simp only [readHost, bind_eq_ok] at hread
      obtain ⟨-, -, hread⟩ := hread
      cases hread
  | some (.body g) =>
      simp only [readHost, bind_eq_ok] at hread ⊢
      obtain ⟨-, -, hread⟩ := hread
      exact ⟨(), howned, hread⟩

theorem hostPolicy_world {writer : Bool} {dir : HostDir} {w' : World}
    (h : hostPolicy ctx w writer dir = .ok policy) (howned : w'.rootOwned = .ok ()) :
    hostPolicy ctx w' writer dir = .ok policy := by
  simp only [hostPolicy, bind_eq_ok] at h ⊢
  obtain ⟨u, hlinux, v, hlock, x, hstatic, host, hread, rest⟩ := h
  exact ⟨u, hlinux, v, hlock, x, hstatic, host, readHost_world hread howned, rest⟩

/-- A host operation that succeeded has read back what it left. -/
theorem withHostWriter_accepted {io : HostIo} {plan : Except Code Change}
    (h : (s.withHostWriter ctx w io plan).1 = .ok policy) {w' : World}
    (howned : w'.rootOwned = .ok ()) :
    hostPolicy ctx w' false (s.withHostWriter ctx w io plan).2.host = .ok policy := by
  rcases @withHostWriter_cases ctx w s io plan with
    ⟨⟨code, herror⟩, -⟩ | ⟨⟨code, herror⟩, -⟩ | hwritten
  · rw [herror] at h
    cases h
  · rw [herror] at h
    cases h
  · obtain ⟨change, read, -, -, hread, ⟨hok, hlock⟩ | ⟨code, herror⟩⟩ := hwritten
    · obtain rfl : read = policy := Except.ok.inj (hok.symm.trans h)
      exact hostPolicy_world (hostPolicy_unlocked hread (congrArg Entry.now hlock)) howned
    · rw [herror] at h
      cases h

/-- The writers satisfy the readers. A change of the approvals or of the mode that succeeds
leaves a policy that every later reader accepts while it stays root-owned; a selection that
is on disk is accepted in every state of every run, whatever the host does to its policy. -/
theorem writers_satisfy_readers (ctx : Context) :
    (∀ (s : State) (w : World) (before after : HostPolicy) (input : ApprovalInput) (io : HostIo),
      hostPolicy ctx w false s.host = .ok before →
      (s.changeHostApproval ctx w input io).1 = .ok after →
      ∀ w' : World, w'.rootOwned = .ok () →
        hostPolicy ctx w' false (s.changeHostApproval ctx w input io).2.host = .ok after) ∧
    (∀ (s : State) (w : World) (before after : HostPolicy) (input : ModeInput) (io : HostIo),
      hostPolicy ctx w false s.host = .ok before →
      (s.changeAuthorizationMode ctx w input io).1 = .ok after →
      ∀ w' : World, w'.rootOwned = .ok () →
        hostPolicy ctx w' false (s.changeAuthorizationMode ctx w input io).2.host = .ok after) ∧
    ∀ (policy : Option PolicyFile) (events : List Event) (sel : Selection) (w : World),
      (run ctx (start policy) events).data.selection.now = some sel → w.stateDirectory = .ok () →
      w.stateFile = .ok () →
      selection ctx w (run ctx (start policy) events).data = .ok (some sel) := by
  refine ⟨?_, ?_, ?_⟩
  · intro s w before after input io _ hok w' howned
    unfold State.changeHostApproval at hok ⊢
    split at hok
    · cases hok
    · exact withHostWriter_accepted hok howned
  · intro s w before after input io _ hok w' howned
    unfold State.changeAuthorizationMode at hok ⊢
    split at hok
    · cases hok
    · split at hok
      · cases hok
      · rename_i hconfirmed
        rw [if_neg hconfirmed]
        exact withHostWriter_accepted hok howned
  · intro policy events sel w hsel hdir hfile
    exact selection_accepted policy events hsel hdir hfile

/-- The approval of one more root, and the selection of the configured one. -/
theorem writers_satisfy_readers_of_sample :
    let approved :=
      (start none).changeHostApproval sampleContext sampleWorld sampleApproval hostDone
    let applied := run sampleContext (start none)
      (.check sampleWorld (.body sampleRequest) :: List.replicate 7 (.advance stepDone))
    hostPolicy sampleContext sampleWorld false approved.2.host = .ok samplePolicy1 ∧
      selection sampleContext sampleWorld applied.data = .ok (some sampleSelection) := by
  obtain ⟨happroval, -, hselection⟩ := writers_satisfy_readers sampleContext
  refine ⟨happroval (start none) sampleWorld samplePolicy0 samplePolicy1 sampleApproval hostDone
    ?_ ?_ sampleWorld rfl,
    hselection none _ sampleSelection sampleWorld ?_ rfl rfl⟩
  · decide +kernel
  · decide +kernel
  · decide +kernel

end Pluton.SourceAccess
