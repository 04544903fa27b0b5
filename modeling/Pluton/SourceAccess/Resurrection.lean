-- SUMMARY: A selected root is effective only while its grant has never been missing.
import Pluton.SourceAccess.Writers

/-!
# No resurrection of source access

A selection keeps, for each root, the epoch of the approval that covered it. Every change
of the host's policy takes a new version, and what it adds carries that version. A grant
of an old epoch is therefore one that no change has removed in between.
-/
namespace Pluton.SourceAccess

open Disk (Entry Written)
open Disk.Entry (settled)
open Except (bind_eq_ok)

variable {ctx : Context} {w : World} {s : State}

/-! ## Grants -/

/-- One approval, or one delegated root of one setup of the mode, with its epoch. -/
inductive Grant where
  | approval (root : String) (epoch : Nat)
  | delegation (setup : Delegation) (root : String) (epoch : Nat)

def Grant.root : Grant → String
  | .approval root _ => root
  | .delegation _ root _ => root

def Grant.epoch : Grant → Nat
  | .approval _ epoch => epoch
  | .delegation _ _ epoch => epoch

/-- The grant stands in the policy. -/
def HostApproval.Grants (h : HostApproval) : Grant → Prop
  | .approval root epoch => root ∈ h.roots ∧ h.rootVersions.lookup root = some epoch
  | .delegation setup root epoch =>
      h.delegation = some setup ∧ setup.authorizationMode = .serverManaged ∧
      root ∈ setup.delegatedRoots ∧ setup.delegatedRootVersions.lookup root = some epoch

/-- The grant stands in the policy file that is seen. -/
def State.Holds (s : State) (g : Grant) : Prop :=
  ∃ h, s.host.policy.now = some (.body h) ∧ h.Grants g

def State.hostVersion (s : State) : Nat :=
  match s.host.policy.now with
  | some (.body h) => h.hostVersion
  | _ => 0

variable {root : String}

/-- An epoch that is not 0 is that of a grant which covers the root. -/
theorem grant_of_rootEpoch {policy : HostPolicy} {epoch : Nat}
    (hstatic : policy.staticRoots.any (sourcePathWithin · root) = false)
    (h : rootEpoch policy root = some epoch) :
    ∃ g, policy.host.Grants g ∧ sourcePathWithin g.root root = true ∧ g.epoch = epoch := by
  unfold rootEpoch at h
  rw [if_neg (by simp [hstatic])] at h
  split at h
  · rename_i parent hfind
    exact ⟨.approval parent epoch, ⟨List.mem_of_find?_eq_some hfind, h⟩,
      by simpa [Grant.root] using List.find?_some hfind, rfl⟩
  · split at h
    · rename_i parent hfind
      obtain ⟨epochs, hepochs, hlookup⟩ := Option.bind_eq_some_iff.mp h
      obtain ⟨d, hd, rfl⟩ := Option.map_eq_some_iff.mp hepochs
      simp only [HostApproval.delegated, hd] at hfind
      split at hfind
      · rename_i hmode
        exact ⟨.delegation d parent epoch, ⟨hd, hmode, List.mem_of_find?_eq_some hfind, hlookup⟩,
          by simpa [Grant.root] using List.find?_some hfind, rfl⟩
      · cases hfind
    · cases h

/-! ## Changes of the policy -/

/-- The next version of a policy: what is new carries the new version. -/
structure Succeeds (old new : HostApproval) : Prop where
  version : new.hostVersion = old.hostVersion + 1
  grants : ∀ g, new.Grants g → g.epoch ≤ old.hostVersion → old.Grants g

theorem lookup_map_root {roots : List String} {f : String → Nat} {epoch : Nat}
    (h : (roots.map fun root => (root, f root)).lookup root = some epoch) : epoch = f root := by
  obtain ⟨other, -, hother⟩ := List.mem_map.mp (Js.mem_of_lookup h)
  cases hother
  rfl

theorem nextEpoch_old {h : HostApproval} (hle : nextEpoch h root ≤ h.hostVersion) :
    h.rootVersions.lookup root = some (nextEpoch h root) := by
  unfold nextEpoch at hle ⊢
  split at hle
  · rename_i epoch hlookup
    split at hle
    · exact absurd hle (Nat.not_succ_le_self _)
    · rename_i hzero
      simp only [hlookup, hzero, if_false]
  · exact absurd hle (Nat.not_succ_le_self _)

theorem planApproval_succeeds {input : ApprovalInput} {change : Change}
    (h : planApproval ctx w s input = .ok change) :
    ∃ policy, hostPolicy ctx w true s.host = .ok policy ∧ Succeeds policy.host change.host := by
  simp only [planApproval, bind_eq_ok, Except.pure_eq_ok] at h
  obtain ⟨policy, hpolicy, -, -, -, -, -, -, -, -, roots, -, -, -, rfl⟩ := h
  have hvalid := (readHost_ok (hostPolicy_ok hpolicy).1).1
  refine ⟨policy, hpolicy, rfl, fun g hg hle => ?_⟩
  cases g with
  | approval root epoch =>
      obtain ⟨-, hlookup⟩ := hg
      obtain rfl := lookup_map_root hlookup
      have hold := nextEpoch_old hle
      exact ⟨hvalid.dated.root root _ hold, hold⟩
  | delegation setup root epoch => exact hg

theorem planMode_succeeds {input : ModeInput} {change : Change}
    (h : planMode ctx w s input = .ok change) :
    ∃ policy, hostPolicy ctx w true s.host = .ok policy ∧ Succeeds policy.host change.host := by
  simp only [planMode, bind_eq_ok, Except.pure_eq_ok] at h
  obtain ⟨policy, hpolicy, -, -, -, -, -, -, -, -, setup, -, -, -, -, -, -, -, rfl⟩ := h
  refine ⟨policy, hpolicy, rfl, fun g hg hle => ?_⟩
  cases g with
  | approval root epoch => exact hg
  | delegation d root epoch =>
      -- every delegated root of the new setup has the new version
      obtain ⟨hd, -, -, hlookup⟩ := hg
      cases hd
      obtain rfl := lookup_map_root hlookup
      exact absurd hle (Nat.not_succ_le_self _)

/-! ## The directory of the policy -/

/-- The lock is on disk: no operation of the host or the Agent gets past it. -/
def Stuck (s : State) : Prop := s.host.lock = settled (some ())

/-- A policy that is in doubt is behind a lock that stays. -/
def Settled (s : State) : Prop := s.host.policy.before = [] ∨ Stuck s

/-- What a step does to the policy that is seen: nothing, or one more version. -/
def Follows (ctx : Context) (s s' : State) : Prop :=
  s'.host.policy.now = s.host.policy.now ∨
    ∃ old new, (s.host.policy.now = some (.body old) ∨
      s.host.policy.now = none ∧ old = noApproval ctx) ∧
      s'.host.policy.now = some (.body new) ∧ Succeeds old new

theorem advance_host (io : Io) : (s.advance ctx io).host = s.host := by
  unfold State.advance State.write
  repeat' split
  all_goals rfl

theorem check_host (payload : Payload) : (s.check ctx w payload).host = s.host := by
  unfold State.check
  repeat' split
  all_goals rfl

theorem recover_host (own : Bool) (input : RecoverInput) (io : RecoverIo) :
    (s.recoverSelection ctx w own input io).host = s.host := by
  unfold State.recoverSelection
  repeat' split
  all_goals rfl

theorem withHostWriter_stuck (h : Stuck s) (io : HostIo) (plan : Except Code Change) :
    (s.withHostWriter ctx w io plan).2 = s := by
  unfold State.withHostWriter
  split
  · rfl
  · rw [if_pos (by rw [show s.host.lock = _ from h]; rfl)]

/-- The two operations that write the policy, with what they plan. -/
theorem approval_cases (ctx : Context) (w : World) (s : State) (input : ApprovalInput)
    (io : HostIo) :
    (s.changeHostApproval ctx w input io).2 = s ∨
      s.changeHostApproval ctx w input io =
        s.withHostWriter ctx w io (planApproval ctx w s input) := by
  unfold State.changeHostApproval
  split
  · exact .inl rfl
  · exact .inr rfl

theorem mode_cases (ctx : Context) (w : World) (s : State) (input : ModeInput) (io : HostIo) :
    (s.changeAuthorizationMode ctx w input io).2 = s ∨
      s.changeAuthorizationMode ctx w input io =
        s.withHostWriter ctx w io (planMode ctx w s input) := by
  unfold State.changeAuthorizationMode
  split
  · exact .inl rfl
  · split
    · exact .inl rfl
    · exact .inr rfl

theorem stuck_step (h : Stuck s) (e : Event) : Stuck (step ctx s e) := by
  cases e with
  | check w payload => exact (congrArg HostDir.lock (check_host payload)).trans h
  | advance io => exact (congrArg HostDir.lock (advance_host io)).trans h
  | report w => exact h
  | approval w input io =>
      rw [step]
      rcases approval_cases ctx w s input io with hsame | hwriter
      · rw [hsame]
        exact h
      · rw [hwriter, withHostWriter_stuck h]
        exact h
  | mode w input io =>
      rw [step]
      rcases mode_cases ctx w s input io with hsame | hwriter
      · rw [hsame]
        exact h
      · rw [hwriter, withHostWriter_stuck h]
        exact h
  | receipt receipt written => exact h
  | recover w own input io => exact (congrArg HostDir.lock (recover_host own input io)).trans h
  | restart => exact h
  | crash picks =>
      change s.host.lock.crash picks.lock = _
      rw [show s.host.lock = _ from h, Disk.Entry.crash_settled]

theorem stuck_run (h : Stuck s) (events : List Event) : Stuck (run ctx s events) := by
  induction events generalizing s with
  | nil => exact h
  | cons e events ih => exact ih (stuck_step h e)

/-- One operation of the host: afterwards the policy is settled, and it follows the one
before unless the lock stays. -/
theorem hostWriter_step {plan : Except Code Change} (hs : Settled s) (hfree : ¬Stuck s)
    (hplan : ∀ change, plan = .ok change →
      ∃ policy, hostPolicy ctx w true s.host = .ok policy ∧ Succeeds policy.host change.host)
      (io : HostIo) :
    Settled (s.withHostWriter ctx w io plan).2 ∧
      (¬Stuck (s.withHostWriter ctx w io plan).2 →
        Follows ctx s (s.withHostWriter ctx w io plan).2) := by
  have hbefore := hs.resolve_right hfree
  rcases @withHostWriter_cases ctx w s io plan with ⟨-, hsame | hsync⟩ | ⟨-, hlock⟩ | hwritten
  · exact ⟨.inl (hsame ▸ hbefore), fun _ => .inl (congrArg Entry.now hsame)⟩
  · exact ⟨.inl (congrArg Entry.before hsync), fun _ => .inl ((congrArg Entry.now hsync).trans rfl)⟩
  · exact ⟨.inr hlock, fun hnot => absurd hlock hnot⟩
  · obtain ⟨change, -, hchange, hpolicy, -, -⟩ := hwritten
    obtain ⟨policy, hread, hsucceeds⟩ := hplan change hchange
    refine ⟨.inl (congrArg Entry.before hpolicy),
      fun _ => .inr ⟨policy.host, change.host, ?_, congrArg Entry.now hpolicy, hsucceeds⟩⟩
    exact (readHost_ok (hostPolicy_ok hread).1).2.symm

theorem settled_of_host {s' : State} (hs : Settled s) (hhost : s'.host = s.host) : Settled s' := by
  unfold Settled Stuck
  rw [hhost]
  exact hs

theorem host_step (hs : Settled s) (hfree : ¬Stuck s) (e : Event) :
    Settled (step ctx s e) ∧ (¬Stuck (step ctx s e) → Follows ctx s (step ctx s e)) := by
  have hkept : ∀ {s' : State}, s'.host = s.host →
      Settled s' ∧ (¬Stuck s' → Follows ctx s s') := fun hhost =>
    ⟨settled_of_host hs hhost, fun _ => .inl (congrArg (fun dir => dir.policy.now) hhost)⟩
  cases e with
  | check w payload => exact hkept (check_host payload)
  | advance io => exact hkept (advance_host io)
  | report w => exact hkept rfl
  | approval w input io =>
      rw [step]
      rcases approval_cases ctx w s input io with hsame | hwriter
      · exact hkept (congrArg State.host hsame)
      · rw [hwriter]
        exact hostWriter_step hs hfree (fun change hchange => planApproval_succeeds hchange) io
  | mode w input io =>
      rw [step]
      rcases mode_cases ctx w s input io with hsame | hwriter
      · exact hkept (congrArg State.host hsame)
      · rw [hwriter]
        exact hostWriter_step hs hfree (fun change hchange => planMode_succeeds hchange) io
  | receipt receipt written => exact hkept rfl
  | recover w own input io => exact hkept (recover_host own input io)
  | restart => exact hkept rfl
  | crash picks =>
      have hpolicy : (s.crash picks).host.policy = s.host.policy := by
        change s.host.policy.crash picks.policy = _
        rw [Disk.Entry.eq_settled (hs.resolve_right hfree), Disk.Entry.crash_settled]
      exact ⟨.inl rfl, fun _ => .inl (congrArg Entry.now hpolicy)⟩

/-! ## Runs -/

theorem not_grants_noApproval (g : Grant) : ¬(noApproval ctx).Grants g := by
  cases g with
  | approval root epoch => exact fun h => by cases h.1
  | delegation setup root epoch => exact fun h => by cases h.1

/-- Backwards through a step: versions do not grow, and a grant of an old epoch was there. -/
theorem Follows.back {s' : State} (h : Follows ctx s s') : s.hostVersion ≤ s'.hostVersion ∧
    ∀ g, s'.Holds g → g.epoch ≤ s.hostVersion → s.Holds g := by
  rcases h with hsame | ⟨old, new, hold, hnew, hsucceeds⟩
  · unfold State.hostVersion State.Holds
    rw [hsame]
    exact ⟨Nat.le_refl _, fun g hg _ => hg⟩
  · have hversion : s.hostVersion = old.hostVersion := by
      unfold State.hostVersion
      rcases hold with hbody | ⟨hnone, rfl⟩
      · rw [hbody]
      · rw [hnone]
        rfl
    have hversion' : s'.hostVersion = old.hostVersion + 1 := by
      unfold State.hostVersion
      rw [hnew]
      exact hsucceeds.version
    refine ⟨by rw [hversion, hversion']; exact Nat.le_succ _, fun g hg hle => ?_⟩
    obtain ⟨found, hfound, hgrants⟩ := hg
    rw [hnew] at hfound
    cases hfound
    have hgrant := hsucceeds.grants g hgrants (hversion ▸ hle)
    rcases hold with hbody | ⟨-, rfl⟩
    · exact ⟨old, hbody, hgrant⟩
    · exact absurd hgrant (not_grants_noApproval g)

/-- A grant that stands at the end of a run, of an epoch from before its start, stood all along. -/
theorem held_all_along {events : List Event} (hs : Settled s) (hfree : ¬Stuck (run ctx s events))
    {g : Grant} (hg : (run ctx s events).Holds g) (hle : g.epoch ≤ s.hostVersion) :
    ∀ pre post, events = pre ++ post → (run ctx s pre).Holds g := by
  induction events generalizing s with
  | nil =>
      intro pre post hsplit
      obtain ⟨rfl, rfl⟩ := List.append_eq_nil_iff.mp hsplit.symm
      exact hg
  | cons e events ih =>
      have hfree₀ : ¬Stuck s := fun hstuck => hfree (stuck_run hstuck (e :: events))
      have hfree₁ : ¬Stuck (step ctx s e) := fun hstuck => hfree (stuck_run hstuck events)
      obtain ⟨hsettled, hfollows⟩ := host_step hs hfree₀ e
      obtain ⟨hversion, hback⟩ := (hfollows hfree₁).back
      have hrest := ih hsettled hfree hg (hle.trans hversion)
      have hfirst : s.Holds g := hback g (hrest [] events rfl) hle
      intro pre post hsplit
      cases pre with
      | nil => exact hfirst
      | cons f pre =>
          rw [List.cons_append, List.cons.injEq] at hsplit
          obtain ⟨rfl, hsplit⟩ := hsplit
          exact hrest pre post hsplit

theorem settled_run (hs : Settled s) (events : List Event) : Settled (run ctx s events) := by
  induction events generalizing s with
  | nil => exact hs
  | cons e events ih =>
      refine ih ?_
      by_cases hstuck : Stuck s
      · exact .inr (stuck_step hstuck e)
      · exact (host_step hs hstuck e).1

/-! ## Reports -/

/-- An effective root is a configured one, or the epoch it was bound to still stands. -/
theorem bound_of_effective (h : root ∈ (s.report ctx w).effectiveRoots) :
    ∃ policy, hostPolicy ctx w false s.host = .ok policy ∧
      (root ∈ policy.staticRoots ∨
        ∃ sel, s.data.selection.now = some sel ∧ root ∈ sel.roots ∧
          sel.hostRootVersions.lookup root = rootEpoch policy root) := by
  have herror : (s.report ctx w).policyError = none := by
    by_contra hne
    have hnone := effectiveRoots_of_policyError hne
    rw [show (s.report ctx w).effectiveRoots = [] from hnone] at h
    cases h
  obtain ⟨policy, hpolicy, -, -, -, -, -, -, -, hroots⟩ := report_ok herror
  refine ⟨policy, hpolicy, ?_⟩
  rw [show (s.report ctx w).effectiveRoots = _ from hroots, effectiveRoots, List.mem_filter] at h
  obtain ⟨hmem, heffective⟩ := h
  cases hsel : s.data.selection.now with
  | none =>
      rw [hsel] at hmem
      exact .inl hmem
  | some sel =>
      rw [hsel] at hmem heffective
      refine .inr ⟨sel, rfl, hmem, ?_⟩
      by_contra hchanged
      have hrefused : (some sel).any (fun sel =>
          sel.hostRootVersions.lookup root != rootEpoch policy root) = true := by
        simpa using hchanged
      unfold isEffective rootCheck at heffective
      simp only [hrefused, if_true] at heffective
      split at heffective
      · cases heffective
      · split at heffective <;> cases heffective

/-- No access comes back. A root that a report grants is covered by the fixed configuration,
or the selection is that of one `apply` of the run and one grant that covers the root, an
approval of one epoch or a delegated root of one setup of the mode, has stood in every
state since the checks of that `apply`. -/
theorem no_resurrection (ctx : Context) (policy : Option PolicyFile) (events : List Event)
    (w : World) (root : String)
    (h : root ∈ ((run ctx (start policy) events).report ctx w).effectiveRoots) :
    (∃ parent ∈ ctx.allowedRoots, sourcePathWithin parent root = true) ∨
      ∃ before w' payload after p g,
        events = before ++ .check w' payload :: after ∧
        checkApply ctx w' (run ctx (start policy) before) payload = .ready p ∧
        root ∈ p.input.roots ∧ (run ctx (start policy) events).data.selection.now =
          some (p.selection ctx) ∧
        sourcePathWithin g.root root = true ∧
        ∀ pre post, .check w' payload :: after = pre ++ post →
          (run ctx (run ctx (start policy) before) pre).Holds g := by
  obtain ⟨current, hcurrent, hroot⟩ := bound_of_effective h
  obtain ⟨hread, -, hstaticRoots, -, hunlocked⟩ := hostPolicy_ok hcurrent
  by_cases hstatic : current.staticRoots.any (sourcePathWithin · root) = true
  · obtain ⟨parent, hparent, hwithin⟩ := List.any_eq_true.mp hstatic
    rw [hstaticRoots] at hparent
    exact .inl ⟨parent, Js.mem_sortedSet.mp hparent, hwithin⟩
  · rw [Bool.not_eq_true] at hstatic
    rcases hroot with hself | ⟨sel, hsel, hmem, hepoch⟩
    · rw [List.any_eq_false] at hstatic
      exact absurd (sourcePathWithin_self root) (hstatic root hself)
    · right
      have hgood : Good ctx _ _ := good_run policy events
      obtain ⟨p, ⟨before, w', payload, after, rfl, hready⟩, rfl⟩ := hgood.files.selection.1 sel hsel
      obtain ⟨earlier, hbound⟩ := checkApply_ready hready
      obtain ⟨epoch, hearlier, hlookup⟩ := hbound.epochs root hmem
      obtain ⟨g, hgrants, hcovers, hg⟩ := grant_of_rootEpoch hstatic (hepoch.symm.trans hlookup)
      refine ⟨before, w', payload, after, p, g, rfl, hready, hmem, hsel, hcovers, ?_⟩
      obtain ⟨hreadEarlier, -, hstaticEarlier, -, -⟩ := hostPolicy_ok hbound.read
      rw [run_append] at hread hunlocked
      -- the epoch was known to the policy that the checks of the `apply` read
      have hle : g.epoch ≤ (run ctx (start policy) before).hostVersion := by
        have hversion := (rootEpoch_le (readHost_ok hreadEarlier).1 hearlier).2
          (by rw [hstaticEarlier, ← hstaticRoots]; exact hstatic)
        rw [hg]
        refine hversion.trans_eq ?_
        unfold State.hostVersion
        rcases (readHost_ok hreadEarlier).2 with ⟨hnone, hhost⟩ | hbody
        · rw [hnone, hhost]
          rfl
        · rw [hbody]
      have hholds :
          (run ctx (run ctx (start policy) before) (.check w' payload :: after)).Holds g := by
        rcases (readHost_ok hread).2 with ⟨-, hhost⟩ | hbody
        · rw [hhost] at hgrants
          exact absurd hgrants (not_grants_noApproval g)
        · exact ⟨current.host, hbody, hgrants⟩
      refine held_all_along (settled_run (.inl rfl) before) (fun hstuck => ?_) hholds hle
      have hnone := hunlocked rfl
      rw [show (run ctx (run ctx (start policy) before) (.check w' payload :: after)).host.lock =
        _ from hstuck]
        at hnone
      cases hnone

/-! ## What a change of the mode leaves -/

/-- The approval of a root, its selection, and the change to delegation. -/
def sampleHistory : List Event :=
  .approval sampleWorld sampleApproval hostDone ::
    .check sampleWorld (.body ⟨"request-2", 0, revision1, ["/data/a"]⟩) ::
    List.replicate 7 (.advance stepDone)

def sampleDelegation : List Event :=
  [.receipt (.pending "agent-1" sampleCommand "boot" 0 600000) .durable,
    .mode sampleWorld
      { agentId := "agent-1", expectedRevision := revision1, requestId := "request-3",
        authorizationMode := .serverManaged, roots := ["/data/b"], secret := "secret-1",
        confirmDelegation := true, confirmDrained := true } hostDone]

/-- The states after the selection and after the change, with what they report. -/
def sampleStates : { states : State × State //
    states = (run sampleContext (start none) sampleHistory,
      run sampleContext (run sampleContext (start none) sampleHistory) sampleDelegation) ∧
    (states.1.report sampleContext sampleWorld).effectiveRoots = ["/data/a"] ∧
    (states.1.report sampleContext sampleWorld).authorizationMode = .hostApproved ∧
    (states.2.report sampleContext sampleWorld).effectiveRoots = ["/data/a"] ∧
    (states.2.report sampleContext sampleWorld).authorizationMode = .serverManaged } :=
  ⟨_, rfl, by decide +kernel⟩

theorem no_resurrection_of_sample :
    (∃ parent ∈ sampleContext.allowedRoots, sourcePathWithin parent "/data/a" = true) ∨
      ∃ before w' payload after p g,
        sampleHistory ++ sampleDelegation = before ++ .check w' payload :: after ∧
        checkApply sampleContext w' (run sampleContext (start none) before) payload = .ready p ∧
        "/data/a" ∈ p.input.roots ∧
        (run sampleContext (start none) (sampleHistory ++ sampleDelegation)).data.selection.now =
          some (p.selection sampleContext) ∧
        sourcePathWithin g.root "/data/a" = true ∧
        ∀ pre post, .check w' payload :: after = pre ++ post →
          (run sampleContext (run sampleContext (start none) before) pre).Holds g :=
  no_resurrection sampleContext none (sampleHistory ++ sampleDelegation) sampleWorld "/data/a" (by
    obtain ⟨states, rfl, -, -, heffective, -⟩ := sampleStates
    rw [run_append, heffective]
    exact List.mem_singleton.mpr rfl)

/-- A configured root is effective without any grant, and an approved root stays effective
when the mode changes after its selection. -/
theorem access_without_mode_epoch :
    let configured := run sampleContext (start none)
      (.check sampleWorld (.body sampleRequest) :: List.replicate 7 (.advance stepDone))
    let approved := run sampleContext (start none) sampleHistory
    let delegated := run sampleContext approved sampleDelegation
    (configured.report sampleContext sampleWorld).effectiveRoots = ["/srv/app"] ∧
      configured.host.policy.now = none ∧
      (approved.report sampleContext sampleWorld).effectiveRoots = ["/data/a"] ∧
      (approved.report sampleContext sampleWorld).authorizationMode = .hostApproved ∧
      (delegated.report sampleContext sampleWorld).effectiveRoots = ["/data/a"] ∧
      (delegated.report sampleContext sampleWorld).authorizationMode = .serverManaged := by
  obtain ⟨states, rfl, hreports⟩ := sampleStates
  dsimp only at hreports ⊢
  exact ⟨by decide +kernel, by decide +kernel, hreports⟩

end Pluton.SourceAccess
