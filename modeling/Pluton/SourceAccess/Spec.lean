-- SUMMARY: What each reader and check of the source access policy has established.
import Pluton.SourceAccess.Apply

/-!
# Source access policy: what a check establishes

One lemma for each function that returns only if its checks passed. Later modules use
these and do not open the functions again.
-/
namespace Pluton.SourceAccess

open Disk (Entry Written)
open Except (bind_eq_ok map_eq_ok mapError_eq_ok forM_eq_ok)

variable {ctx : Context} {w : World} {policy : HostPolicy} {roots : List String} {u : Unit}

/-! ## Paths -/

theorem validateSourcePaths_ok {value roots : List String} {allowEmpty : Bool}
    (h : validateSourcePaths value allowEmpty = .ok roots) :
    roots = value ∧ value.length ≤ maxRoots ∧ ∀ root ∈ value, isSourcePath root = true := by
  unfold validateSourcePaths at h
  split at h
  · cases h
  · rename_i hlen
    split at h
    · rename_i hall
      cases h
      simp only [Bool.or_eq_true, decide_eq_true_eq, not_or, Nat.not_lt] at hlen
      exact ⟨rfl, hlen.1, List.all_eq_true.mp hall⟩
    · cases h

theorem assertNonoverlappingRoots_ok :
    assertNonoverlappingRoots roots = .ok u ↔ nonoverlapping roots = true := by
  unfold assertNonoverlappingRoots
  split <;> simp_all

/-! ## The host's policy -/

/-- The epochs are those of the roots, and of nothing else. -/
structure Dated (hostVersion : Nat) (roots : List String) (epochs : List (String × Nat)) :
    Prop where
  epoch : ∀ root ∈ roots, ∃ epoch, epochs.lookup root = some epoch ∧ 0 < epoch ∧
    epoch ≤ Js.maxSafeInteger ∧
    epoch ≤ hostVersion
  root : ∀ root epoch, epochs.lookup root = some epoch → root ∈ roots

/-- As many keys as roots, and each root among them: the keys are the roots. -/
theorem dated_of_epochsMatch {hostVersion : Nat} {epochs : List (String × Nat)}
    (hroots : roots.Nodup) (h : epochsMatch hostVersion roots epochs = true) :
    Dated hostVersion roots epochs := by
  simp only [epochsMatch, Bool.and_eq_true, beq_iff_eq, List.all_eq_true, Option.any_eq_true,
    positive, decide_eq_true_eq] at h
  obtain ⟨hlen, hall⟩ := h
  refine ⟨fun root hroot => ?_, fun root epoch hlookup => ?_⟩
  · obtain ⟨epoch, hepoch, ⟨hpos, hsafe⟩, hle⟩ := hall root hroot
    exact ⟨epoch, hepoch, hpos, hsafe, hle⟩
  · have hsub : roots ⊆ epochs.map Prod.fst := by
      intro other hother
      obtain ⟨found, hfound, -⟩ := hall other hother
      exact List.mem_map.mpr ⟨(other, found), Js.mem_of_lookup hfound, rfl⟩
    have hperm : roots.Perm (epochs.map Prod.fst) :=
      (List.subperm_of_subset hroots hsub).perm_of_length_le (by simp [hlen])
    refine hperm.mem_iff.mpr (List.mem_map.mpr ⟨(root, epoch), Js.mem_of_lookup hlookup, rfl⟩)

/-- What `hostPolicy` checks of the approvals. -/
structure HostApproval.Valid (ctx : Context) (h : HostApproval) : Prop where
  roots : ∀ root ∈ h.roots, newRootAllowed ctx root = true
  dated : Dated h.hostVersion h.roots h.rootVersions
  delegated : ∀ d, h.delegation = some d →
    Dated h.hostVersion d.delegatedRoots d.delegatedRootVersions

theorem checkDelegation_ok {hostVersion : Nat} {d : Delegation}
    (h : checkDelegation ctx hostVersion d = .ok u) :
    Dated hostVersion d.delegatedRoots d.delegatedRootVersions := by
  simp only [checkDelegation, bind_eq_ok, assertNonoverlappingRoots_ok, Except.refuseIf_eq_ok] at h
  obtain ⟨-, -, -, -, -, hnon, -, -, -, -, hmatch⟩ := h
  exact dated_of_epochsMatch (nodup_of_nonoverlapping hnon) (by simpa using hmatch)

theorem checkHost_ok {h : HostApproval} (hok : checkHost ctx h = .ok u) :
    h.Valid ctx := by
  simp only [checkHost, bind_eq_ok, assertNonoverlappingRoots_ok, Except.refuseIf_eq_ok] at hok
  obtain ⟨-, -, -, -, -, hnon, -, hroots, -, hmatch, hdelegation⟩ := hok
  refine ⟨List.all_eq_true.mp (by simpa using hroots),
    dated_of_epochsMatch (nodup_of_nonoverlapping hnon) (by simpa using hmatch), fun d hd => ?_⟩
  rw [hd] at hdelegation
  exact checkDelegation_ok hdelegation

theorem valid_noApproval : (noApproval ctx).Valid ctx := by
  refine ⟨fun root hroot => ?_, ⟨fun root hroot => ?_, fun root epoch hepoch => ?_⟩, fun d hd => ?_⟩
  · cases hroot
  · cases hroot
  · cases hepoch
  · cases hd

theorem readHost_ok {file : Option PolicyFile} {h : HostApproval}
    (hok : readHost ctx w file = .ok h) :
    h.Valid ctx ∧ (file = none ∧ h = noApproval ctx ∨ file = some (.body h)) := by
  match file with
  | none =>
      cases hok
      exact ⟨valid_noApproval, .inl ⟨rfl, rfl⟩⟩
  | some .malformed =>
      simp only [readHost, bind_eq_ok] at hok
      obtain ⟨-, -, hok⟩ := hok
      cases hok
  | some (.body g) =>
      simp only [readHost, bind_eq_ok, Except.pure_eq_ok] at hok
      obtain ⟨-, -, -, -, _, hcheck, rfl⟩ := hok
      exact ⟨checkHost_ok hcheck, .inr rfl⟩

theorem hostPolicy_ok {writer : Bool} {dir : HostDir}
    (h : hostPolicy ctx w writer dir = .ok policy) :
    readHost ctx w dir.policy.now = .ok policy.host ∧ policy.roots = allRoots ctx policy.host ∧
      policy.staticRoots = staticRoots ctx ∧
      policy.revision = ctx.sha256 (revisionText ctx policy.host) ∧
      (writer = false → dir.lock.now = none) := by
  simp only [hostPolicy, bind_eq_ok, Except.refuseIf_eq_ok, Except.pure_eq_ok] at h
  obtain ⟨-, -, -, hlock, -, -, found, hread, -, -, rfl⟩ := h
  refine ⟨hread, rfl, rfl, rfl, fun hwriter => ?_⟩
  subst hwriter
  simpa using hlock

/-- A writer and a reader see the same policy once the lock is gone. -/
theorem hostPolicy_unlocked {writer : Bool} {dir : HostDir} {lock : Entry Unit}
    (h : hostPolicy ctx w writer dir = .ok policy) (hlock : lock.now = none) :
    hostPolicy ctx w false { dir with lock := lock } = .ok policy := by
  simp only [hostPolicy, bind_eq_ok, Except.refuseIf_eq_ok, Except.pure_eq_ok] at h ⊢
  obtain ⟨u, hlinux, -, -, rest⟩ := h
  exact ⟨u, hlinux, (), by simp [hlock], rest⟩

/-! ## The selection -/

theorem readAnchor_ok {file found : Option String} (h : readAnchor w file = .ok found) :
    found = file := by
  cases file with
  | none => exact (Except.ok.inj h).symm
  | some agentId =>
      simp only [readAnchor, bind_eq_ok, Except.pure_eq_ok] at h
      obtain ⟨-, -, -, -, rfl⟩ := h
      rfl

theorem readSelection_ok {file found : Option Selection} (h : readSelection w file = .ok found) :
    found = file := by
  cases file with
  | none => exact (Except.ok.inj h).symm
  | some sel =>
      simp only [readSelection, bind_eq_ok, Except.pure_eq_ok] at h
      obtain ⟨-, -, -, -, rfl⟩ := h
      rfl

theorem readTransaction_ok {file : Option Marker} {found : Option Transaction}
    (h : readTransaction w file = .ok found) : file = found.map .whole := by
  match file with
  | none =>
      cases h
      rfl
  | some .torn =>
      simp only [readTransaction, bind_eq_ok] at h
      obtain ⟨-, -, h⟩ := h
      cases h
  | some (.whole t) =>
      simp only [readTransaction, bind_eq_ok, Except.pure_eq_ok] at h
      obtain ⟨-, -, -, -, rfl⟩ := h
      rfl

theorem anchoredSelection_ok {anchor : Option String} {state selected : Option Selection}
    (h : anchoredSelection ctx anchor state = .ok selected) :
    selected = state ∧ anchor.isSome = state.isSome := by
  match anchor, state with
  | none, none =>
      cases h
      exact ⟨rfl, rfl⟩
  | none, some _ => cases h
  | some _, none => cases h
  | some _, some sel =>
      simp only [anchoredSelection, bind_eq_ok, Except.pure_eq_ok] at h
      obtain ⟨-, -, -, -, rfl⟩ := h
      exact ⟨rfl, rfl⟩

theorem selection_ok {dir : DataDir} {selected : Option Selection}
    (h : selection ctx w dir = .ok selected) :
    selected = dir.selection.now ∧ dir.anchor.now.isSome = dir.selection.now.isSome := by
  simp only [selection, bind_eq_ok] at h
  obtain ⟨-, -, anchor, hanchor, state, hstate, hsel⟩ := h
  have hboth := anchoredSelection_ok hsel
  rw [readAnchor_ok hanchor, readSelection_ok hstate] at hboth
  exact hboth

/-! ## Reports -/

theorem checkDurability_ok {latched : Bool} {dir : DataDir}
    (h : checkDurability w latched dir = .ok u) : latched = false ∧ dir.transaction.now = none := by
  simp only [checkDurability, bind_eq_ok, Except.refuseIf_eq_ok] at h
  obtain ⟨-, hlatch, found, hfound, hnone⟩ := h
  refine ⟨hlatch, ?_⟩
  rw [readTransaction_ok hfound, Option.map_eq_none_iff]
  simpa using hnone

/-- A report without an error grants what the policy and the selection on disk say. -/
theorem report_ok {latched : Bool} {host : HostDir} {data : DataDir}
    (h : (report ctx w latched host data).policyError = none) :
    ∃ policy, hostPolicy ctx w false host = .ok policy ∧
      selection ctx w data = .ok data.selection.now ∧
      latched = false ∧ data.transaction.now = none ∧
      (report ctx w latched host data).hostPolicyRevision = policy.revision ∧
      (report ctx w latched host data).authorizationMode = policy.host.authorizationMode ∧
      (report ctx w latched host data).approvedRoots = approvedRoots ctx policy.host ∧
      (report ctx w latched host data).effectiveVersion =
        (data.selection.now.map Selection.effectiveVersion).getD 0 ∧
      (report ctx w latched host data).effectiveRoots =
        effectiveRoots w policy data.selection.now := by
  unfold report at h ⊢
  cases hpolicy : hostPolicy ctx w false host with
  | error code =>
      rw [hpolicy] at h
      cases h
  | ok policy =>
      cases hselected : selection ctx w data with
      | error code =>
          rw [hpolicy, hselected] at h
          cases h
      | ok selected =>
          cases hdurable : checkDurability w latched data with
          | error code =>
              rw [hpolicy, hselected, hdurable] at h
              cases h
          | ok u =>
              obtain ⟨rfl, -⟩ := selection_ok hselected
              obtain ⟨hlatch, hnone⟩ := checkDurability_ok hdurable
              exact ⟨policy, rfl, rfl, hlatch, hnone, rfl, rfl, rfl, rfl, rfl⟩

theorem effectiveRoots_of_policyError {latched : Bool} {host : HostDir} {data : DataDir}
    (h : (report ctx w latched host data).policyError ≠ none) :
    (report ctx w latched host data).effectiveRoots = [] := by
  unfold report at h ⊢
  cases hpolicy : hostPolicy ctx w false host with
  | error code => rfl
  | ok policy =>
      cases hselected : selection ctx w data with
      | error code => rfl
      | ok selected =>
          cases hdurable : checkDurability w latched data with
          | error code => rfl
          | ok u =>
              simp only [hpolicy, hselected, hdurable] at h
              exact absurd rfl h

theorem expected_ok {r : SourceAccessReport} {input : SourceRequest}
    (h : r.expected input = .ok u) :
    r.policyError = none ∧ input.expectedVersion = r.effectiveVersion ∧
      input.expectedHostPolicyRevision = r.hostPolicyRevision := by
  unfold SourceAccessReport.expected at h
  split at h
  · cases h
  · rename_i hnone
    split at h
    · rename_i hboth
      simp only [Bool.and_eq_true, beq_iff_eq] at hboth
      exact ⟨hnone, hboth.1, hboth.2⟩
    · cases h

/-! ## Applications -/

theorem request_ok {payload : Payload} {input : SourceRequest} (h : request payload = .ok input) :
    isRequestId input.requestId = true ∧ isRevision input.expectedHostPolicyRevision = true ∧
      validateSourcePaths input.roots true = .ok input.roots := by
  cases payload with
  | notObject => cases h
  | malformed => cases h
  | body r =>
      simp only [request] at h
      split at h
      · rename_i hfields
        obtain ⟨roots, hroots, rfl⟩ := map_eq_ok.mp h
        simp only [Bool.and_eq_true, decide_eq_true_eq] at hfields
        refine ⟨hfields.1.1, hfields.2, ?_⟩
        rw [hroots, (validateSourcePaths_ok hroots).1]
      · cases h

theorem bindEpoch_ok {root : String} {entry : String × Nat}
    (h : bindEpoch policy root = .ok entry) :
    entry.1 = root ∧ rootEpoch policy root = some entry.2 := by
  unfold bindEpoch at h
  split at h
  · rename_i epoch hepoch
    cases h
    exact ⟨rfl, hepoch⟩
  · cases h

/-- The bound epochs are the ones of the policy, root by root. -/
theorem bindEpochs_ok {epochs : List (String × Nat)}
    (h : roots.mapM (bindEpoch policy) = .ok epochs) :
    epochs.map Prod.fst = roots ∧
      ∀ root ∈ roots, ∃ epoch, rootEpoch policy root = some epoch ∧
        epochs.lookup root = some epoch := by
  induction roots generalizing epochs with
  | nil =>
      cases h
      exact ⟨rfl, fun root hroot => by cases hroot⟩
  | cons root roots ih =>
      simp only [List.mapM_cons, bind_eq_ok, Except.pure_eq_ok] at h
      obtain ⟨⟨name, epoch⟩, hentry, rest, hrest, rfl⟩ := h
      obtain ⟨rfl, hepoch⟩ := bindEpoch_ok hentry
      obtain ⟨hkeys, hall⟩ := ih hrest
      refine ⟨by rw [List.map_cons, hkeys], fun other hother => ?_⟩
      by_cases heq : other = name
      · subst heq
        exact ⟨epoch, hepoch, by simp⟩
      · obtain ⟨found, hfound, hlookup⟩ := hall other ((List.mem_cons.mp hother).resolve_left heq)
        refine ⟨found, hfound, ?_⟩
        rw [List.lookup_cons, beq_false_of_ne heq]
        exact hlookup

theorem validationOf_approved {r : SourceAccessReport} {root : String}
    (h : (validationOf ctx w r root).status = .approved) :
    newRootAllowed ctx root = true ∨ root ∈ r.approvedRoots := by
  unfold validationOf at h
  split at h
  · rename_i hroot
    simp only [validateRoot, bind_eq_ok, Except.refuseIf_eq_ok] at hroot
    obtain ⟨-, hrefuses, -⟩ := hroot
    simp only [SourceAccessReport.refuses, Bool.or_eq_false_iff,
      Bool.and_eq_false_iff, Bool.not_eq_false', List.contains_iff_mem] at hrefuses
    exact hrefuses.2
  · cases h

/-- What an `apply` knows when it creates its marker. -/
structure Bound (ctx : Context) (w : World) (s : State) (p : Pending) (policy : HostPolicy) :
    Prop where
  read : hostPolicy ctx w false s.host = .ok policy
  latched : s.latched = false
  unmarked : s.data.transaction.now = none
  selected : selection ctx w s.data = .ok s.data.selection.now
  version : p.input.expectedVersion = (s.data.selection.now.map Selection.effectiveVersion).getD 0
  safe : p.input.expectedVersion + 1 < Js.maxSafeInteger
  requestId : isRequestId p.input.requestId = true
  revision : isRevision p.input.expectedHostPolicyRevision = true
  paths : validateSourcePaths p.input.roots true = .ok p.input.roots
  disjoint : nonoverlapping p.input.roots = true
  allowed : ∀ root ∈ p.input.roots, newRootAllowed ctx root = true ∨
    root ∈ approvedRoots ctx policy.host
  keys : p.hostRootVersions.map Prod.fst = p.input.roots
  epochs : ∀ root ∈ p.input.roots,
    ∃ epoch, rootEpoch policy root = some epoch ∧ p.hostRootVersions.lookup root = some epoch

theorem checkApply_ready {s : State} {payload : Payload} {p : Pending}
    (h : checkApply ctx w s payload = .ready p) : ∃ policy, Bound ctx w s p policy := by
  unfold checkApply at h
  split at h
  · cases h
  · rename_i input hinput
    split at h
    · cases h
    · split at h
      · cases h
      · split at h
        · cases h
        · rename_i validation hvalidate
          split at h
          · cases h
          · rename_i pending hbind
            obtain rfl := Verdict.ready.inj h
            simp only [validate, bind_eq_ok, Except.pure_eq_ok] at hvalidate
            obtain ⟨_, hexpected, rfl⟩ := hvalidate
            simp only [bindRequest, bind_eq_ok, mapError_eq_ok,
              Except.refuseIf_eq_ok, Except.pure_eq_ok, assertNonoverlappingRoots_ok] at hbind
            obtain ⟨_, happroved, -, -, -, hdisjoint, -, hsafe, -, -, -, -, -, -, policy,
              hpolicy, -, -, epochs,
              hepochs, rfl⟩ := hbind
            obtain ⟨hnoerror, hversion, -⟩ := expected_ok hexpected
            obtain ⟨seen, hseen, hselected, hlatched, hunmarked, -, -, hroots, heffective, -⟩ :=
              report_ok hnoerror
            obtain ⟨hid, hrevision, hpaths⟩ := request_ok hinput
            obtain rfl : seen = policy := Except.ok.inj (hseen.symm.trans hpolicy)
            have hall : ∀ root ∈ input.roots,
                (validationOf ctx w (s.report ctx w) root).status = .approved := by
              unfold allApproved at happroved
              split at happroved
              · rename_i hmap
                simpa using hmap
              · split at happroved <;> cases happroved
            exact ⟨seen, {
              read := hpolicy
              latched := hlatched
              unmarked := hunmarked
              selected := hselected
              version := hversion.trans heffective
              safe := by simpa using hsafe
              requestId := hid
              revision := hrevision
              paths := hpaths
              disjoint := hdisjoint
              allowed := fun root hroot => hroots ▸ validationOf_approved (hall root hroot)
              keys := (bindEpochs_ok hepochs).1
              epochs := (bindEpochs_ok hepochs).2 }⟩

/-! ## Recovery -/

theorem checkRecover_ok {s : State} {input : RecoverInput} {marker : Transaction}
    (h : checkRecover ctx w s input = .ok marker) :
    s.data.transaction.now = some (.whole marker) ∧
      ∃ sel, s.data.selection.now = some sel ∧
        sel.effectiveVersion = marker.expectedVersion + 1 := by
  simp only [checkRecover, bind_eq_ok, Except.pure_eq_ok] at h
  obtain ⟨-, -, policy, -, -, -, found, hfound, marker', hmarker, selected, hselected, sel,
      hsel, -, -, rfl⟩ := h
  have hsome : found = some marker' := by
    cases found with
    | none => cases hmarker
    | some t =>
        cases hmarker
        rfl
  refine ⟨by rw [readTransaction_ok hfound, hsome]; rfl, sel, ?_, ?_⟩
  · rw [← (selection_ok hselected).1]
    cases selected with
    | none => cases hsel
    | some held =>
        simp only [requireRecoverable] at hsel
        split at hsel
        · cases hsel
          rfl
        · cases hsel
  · cases selected with
    | none => cases hsel
    | some held =>
        simp only [requireRecoverable] at hsel
        split at hsel
        · rename_i hrec
          cases hsel
          simp only [recoverable, Bool.and_eq_true, beq_iff_eq] at hrec
          exact hrec.1.1.1.2
        · cases hsel

/-! ## Host operations -/

theorem hostPolicy_writer {dir dir' : HostDir} (h : dir'.policy.now = dir.policy.now) :
    hostPolicy ctx w true dir' = hostPolicy ctx w true dir := by
  simp [hostPolicy, h]

theorem writePolicy_lock {s : State} (io : HostIo) (host : HostApproval)
    (h : s.host.lock = .settled (some ())) :
    (s.writePolicy io host).host.lock = .settled (some ()) := by
  unfold State.writePolicy
  cases io.policy with
  | durable => exact congrArg Entry.sync h
  | lost => exact h
  | unsynced => exact h

theorem writeReceipt_host (s : State) (io : HostIo) (receipt : Option Receipt) :
    (s.writeReceipt io receipt).2.host = s.host := by
  cases receipt <;> rfl

/-- The writes of a host operation under its lock. -/
theorem commit_cases {s : State} (io : HostIo) (change : Change)
    (hlock : s.host.lock = .settled (some ())) :
    (s.commit ctx w io change).2.host.lock = .settled (some ()) ∧
      ∀ policy, (s.commit ctx w io change).1 = .ok policy →
        (s.commit ctx w io change).2.host.policy = .settled (some (.body change.host)) ∧
          hostPolicy ctx w true (s.commit ctx w io change).2.host = .ok policy := by
  have hhost := writeReceipt_host s io change.receipt
  unfold State.commit
  split
  · rename_i heq
    rw [heq] at hhost
    exact ⟨(congrArg HostDir.lock hhost).trans hlock, fun policy hpolicy => by cases hpolicy⟩
  · rename_i t heq
    rw [heq] at hhost
    have htlock : t.host.lock = .settled (some ()) := (congrArg HostDir.lock hhost).trans hlock
    refine ⟨?_, fun policy hpolicy => ?_⟩
    · dsimp only
      split
      · exact writePolicy_lock io change.host htlock
      · exact writePolicy_lock io change.host htlock
    · dsimp only at hpolicy ⊢
      split at hpolicy
      · rename_i hdurable
        rw [if_pos hdurable]
        have hwritten : io.policy = .durable := eq_of_beq hdurable
        exact ⟨by simp only [State.writePolicy, hwritten]; rfl, hpolicy⟩
      · cases hpolicy

theorem release_policy (s : State) (io : HostIo) (result : Except Code HostPolicy) :
    (s.release io result).2.host.policy = s.host.policy ∨
      (s.release io result).2.host.policy = s.host.policy.sync := by
  unfold State.release
  split
  · exact .inr rfl
  · cases io.fence with
    | durable => exact .inr rfl
    | lost => exact .inl rfl
    | unsynced => exact .inl rfl

theorem release_result (s : State) (io : HostIo) (result : Except Code HostPolicy) :
    (s.release io result).1 = result ∧ (s.release io result).2.host.lock = .settled none ∨
      ∃ code, (s.release io result).1 = .error code := by
  unfold State.release
  split
  · exact .inl ⟨rfl, rfl⟩
  · exact .inr ⟨_, rfl⟩

/-- How an operation of the host ends: the policy is as it was, or the lock stays, or the
policy that was planned is on disk and was read back. -/
theorem withHostWriter_cases (s : State) (io : HostIo) (plan : Except Code Change) :
    let r := s.withHostWriter ctx w io plan
    (∃ code, r.1 = .error code) ∧
        (r.2.host.policy = s.host.policy ∨ r.2.host.policy = s.host.policy.sync) ∨
      (∃ code, r.1 = .error code) ∧ r.2.host.lock = .settled (some ()) ∨
      ∃ change policy, plan = .ok change ∧ r.2.host.policy = .settled (some (.body change.host)) ∧
        hostPolicy ctx w true r.2.host = .ok policy ∧
        (r.1 = .ok policy ∧ r.2.host.lock = .settled none ∨ ∃ code, r.1 = .error code) := by
  unfold State.withHostWriter
  split
  · exact .inl ⟨⟨_, rfl⟩, .inl rfl⟩
  · split
    · exact .inl ⟨⟨_, rfl⟩, .inl rfl⟩
    · dsimp only
      split
      · exact .inl ⟨⟨_, rfl⟩, .inl rfl⟩
      · split
        · rename_i code
          refine .inl ⟨?_, .inr ?_⟩
          · exact (release_result _ io (.error code)).elim (fun h => ⟨code, h.1⟩) id
          · exact (release_policy _ io (.error code)).elim id id
        · rename_i change
          have hcommit := @commit_cases ctx w
            { s with host := { s.host with lock := s.host.lock.set (some ()) }.sync } io change rfl
          split
          · rename_i heq
            rw [heq] at hcommit
            exact .inr (.inl ⟨⟨_, rfl⟩, hcommit.1⟩)
          · rename_i policy t heq
            rw [heq] at hcommit
            obtain ⟨hpolicy, hread⟩ := hcommit.2 policy rfl
            dsimp only at hpolicy hread
            have hkept : (t.release io (.ok policy)).2.host.policy =
                .settled (some (.body change.host)) :=
              (release_policy t io (.ok policy)).elim (fun h => h.trans hpolicy)
                fun h => h.trans (congrArg Entry.sync hpolicy)
            refine .inr (.inr ⟨change, policy, rfl, hkept, ?_, release_result t io (.ok policy)⟩)
            exact (hostPolicy_writer (congrArg Entry.now (hkept.trans hpolicy.symm))).trans hread

end Pluton.SourceAccess
