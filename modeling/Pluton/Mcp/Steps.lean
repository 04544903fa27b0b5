-- SUMMARY: What each program of the MCP gateway may do to the actions.
import Mathlib.Data.List.Forall2
import Pluton.Mcp.Actions

/-!
# What a step may do

An action's row only ever moves forward: `Keeps` is what a move of a row may be that leaves
an action under way alone, `Leads` any move at all. `Change` says once what a step may do.
-/
namespace Pluton.Mcp

open EStateM

variable {env : Env} {w w' w'' : World} {rows rows' : List ActionRow}
  {move : Status → Status → Prop} {E : McpFault → World → Prop} {set : ActionRow → ActionRow}
  {α : Type} {Q : α → World → Prop} {cond : ActionRow → Bool} {token : NativeToken} {id : String}

/-! ## Moves -/

/-- The moves of a row that leave an action under way alone. -/
def Keeps (s t : Status) : Prop :=
  t = s ∨ s = .pendingApproval ∧ (t = .expired ∨ t = .rejected ∨ t = .executing) ∨
    s = .uncertain ∧ t = .failed

/-- The moves of a row in all. -/
def Leads : Status → Status → Prop
  | .pendingApproval, _ => True
  | .executing, t => t = .executing ∨ t = .dispatched ∨ t = .uncertain ∨ t = .failed
  | .uncertain, t => t = .uncertain ∨ t = .failed
  | s, t => t = s

theorem Keeps.leads {s t : Status} (h : Keeps s t) : Leads s t := by
  unfold Keeps at h
  unfold Leads
  cases s <;> simp_all

theorem Leads.trans {s t u : Status} (h : Leads s t) (h' : Leads t u) : Leads s u := by
  unfold Leads at *
  cases s <;> simp_all
  · rcases h with rfl | rfl | rfl | rfl <;> simp_all
  · rcases h with rfl | rfl <;> simp_all

theorem Keeps.trans {s t u : Status} (h : Keeps s t) (h' : Keeps t u) : Keeps s u := by
  unfold Keeps at *
  rcases h with rfl | ⟨rfl, rfl | rfl | rfl⟩ | ⟨rfl, rfl⟩ <;> simp_all

theorem Leads.busy {s t : Status} (h : Leads s t) (ht : t.busy = true) : s.busy = true := by
  unfold Leads at h
  cases s <;> simp_all [Status.busy]

theorem Leads.decided {s t : Status} (h : Leads s t) (hs : s ≠ .pendingApproval) :
    t ≠ .pendingApproval := by
  unfold Leads at h
  cases s <;> simp_all
  · rcases h with rfl | rfl | rfl | rfl <;> simp
  · rcases h with rfl | rfl <;> simp

structure Moves (move : Status → Status → Prop) (row row' : ActionRow) : Prop where
  inputs : row'.toActionInputs = row.toActionInputs
  status : move row.status row'.status

/-- The rows of a table after each has moved. -/
def Moved (move : Status → Status → Prop) : List ActionRow → List ActionRow → Prop :=
  List.Forall₂ (Moves move)

theorem Moved.refl (h : ∀ s, move s s) (rows : List ActionRow) :
    Moved move rows rows :=
  List.forall₂_same.mpr fun _ _ => ⟨rfl, h _⟩

theorem Moved.trans (hmove : ∀ {s t u}, move s t → move t u → move s u) {rows'' : List ActionRow}
    (h : Moved move rows rows') (h' : Moved move rows' rows'') : Moved move rows rows'' := by
  induction h generalizing rows'' with
  | nil => exact h'
  | cons hrow hrest ih =>
      cases h' with
      | cons hrow' hrest' =>
          exact .cons ⟨hrow'.inputs.trans hrow.inputs, hmove hrow.status hrow'.status⟩ (ih hrest')

theorem Moved.leads (h : Moved Keeps rows rows') : Moved Leads rows rows' :=
  List.Forall₂.imp (fun _ _ hrow => ⟨hrow.inputs, hrow.status.leads⟩) h

theorem moved_update (hrefl : ∀ s, move s s)
    (h : ∀ row ∈ rows, cond row = true → Moves move row (set row)) :
    Moved move rows (Table.update rows cond set) := by
  refine List.forall₂_map_right_iff.mpr (List.forall₂_same.mpr fun row hrow => ?_)
  split
  · next hcond => exact h row hrow hcond
  · exact ⟨rfl, hrefl _⟩

theorem Moved.exists_after (h : Moved move rows rows') {row : ActionRow} (hrow : row ∈ rows) :
    ∃ row' ∈ rows', Moves move row row' := by
  induction h with
  | nil => exact absurd hrow List.not_mem_nil
  | @cons first first' rest rest' hfirst hrest ih =>
      rcases List.mem_cons.mp hrow with rfl | hrow
      · exact ⟨first', List.mem_cons_self, hfirst⟩
      · obtain ⟨row', hrow', hmoves⟩ := ih hrow
        exact ⟨row', List.mem_cons_of_mem _ hrow', hmoves⟩

theorem Moved.exists_before (h : Moved move rows rows') {row' : ActionRow} (hrow' : row' ∈ rows') :
    ∃ row ∈ rows, Moves move row row' := by
  induction h with
  | nil => exact absurd hrow' List.not_mem_nil
  | @cons first first' rest rest' hfirst hrest ih =>
      rcases List.mem_cons.mp hrow' with rfl | hrow'
      · exact ⟨first, List.mem_cons_self, hfirst⟩
      · obtain ⟨row, hrow, hmoves⟩ := ih hrow'
        exact ⟨row, List.mem_cons_of_mem _ hrow, hmoves⟩

/-- What is read of the inputs alone is the same. -/
theorem Moved.map_inputs (h : Moved move rows rows') (f : ActionInputs → α) :
    rows'.map (fun row => f row.toActionInputs) = rows.map fun row => f row.toActionInputs := by
  induction h with
  | nil => rfl
  | cons hrow hrest ih => rw [List.map_cons, List.map_cons, ih, hrow.inputs]

theorem Moved.busy (h : Moved Leads rows rows') (p : ActionInputs → Bool) (f : ActionInputs → α) :
    (((rows'.filter (·.status.busy)).filter fun row => p row.toActionInputs).map fun row =>
      f row.toActionInputs).Sublist
      (((rows.filter (·.status.busy)).filter fun row => p row.toActionInputs).map fun row =>
        f row.toActionInputs) := by
  induction h with
  | nil => exact .slnil
  | @cons row row' rest rest' hrow hrest ih =>
      rw [List.filter_cons, List.filter_cons]
      cases hbusy' : row'.status.busy with
      | false =>
          cases row.status.busy with
          | false => exact ih
          | true =>
              refine ih.trans (List.Sublist.map _ (List.Sublist.filter _ ?_))
              exact List.sublist_cons_self _ _
      | true =>
          rw [hrow.status.busy hbusy', if_pos rfl, if_pos rfl, List.filter_cons,
            List.filter_cons, hrow.inputs]
          split
          · rw [List.map_cons, List.map_cons, hrow.inputs]
            exact ih.cons_cons _
          · exact ih

/-! ## Readings -/

/-- Between the two the clock was read alone. -/
structure Reads (w w' : World) : Prop where
  database : w'.database = w.database
  running : w'.running = w.running
  entered : w'.entered = w.entered
  le : w.reads ≤ w'.reads

theorem Reads.refl (w : World) : Reads w w := ⟨rfl, rfl, rfl, Nat.le_refl _⟩

theorem Reads.trans (h : Reads w w') (h' : Reads w' w'') : Reads w w'' :=
  ⟨h'.database.trans h.database, h'.running.trans h.running, h'.entered.trans h.entered,
    Nat.le_trans h.le h'.le⟩

theorem wp_now {Q : Nat → World → Prop} :
    wp (now env) Q E w ↔ Q (env.clock w.reads) { w with reads := w.reads + 1 } := Iff.rfl

theorem wp_transaction {x : Program α} :
    wp (transaction x) Q E w ↔ wp x Q (fun e w' => E e { w' with database := w.database }) w := by
  unfold wp transaction
  cases x w with
  | ok a w' => rfl
  | error e w' => rfl

theorem wp_updateActions {Q : Unit → World → Prop} :
    wp (updateActions cond set) Q E w ↔
      Q () { w with
        database :=
          { w.database with actions := Table.update w.database.actions cond set } } := Iff.rfl

/-- A program that reads the clock alone, after others. -/
theorem Reads.then {x : Program α} (h : Reads w w')
    (hx : wp x (fun a last => Reads w' last ∧ Q a last) (fun _ => Reads w') w') :
    wp x (fun a last => Reads w last ∧ Q a last) (fun _ => Reads w) w' :=
  hx.mono (fun _ _ hq => ⟨h.trans hq.1, hq.2⟩) fun _ _ => h.trans

/-! ## Admission -/

/-- The token is active at some reading between the two. -/
structure ActiveAt (env : Env) (w w' : World) (id : String) (token : NativeToken) : Prop where
  found : w.database.token id = some token
  revokedAt : token.revokedAt = none
  disabled : token.disabled = false
  unexpired : ∃ n, w.reads ≤ n ∧ n < w'.reads ∧ env.clock n < token.expiresAt

/-- The same between an earlier and a later one. -/
theorem ActiveAt.widen {first last : World} (h : ActiveAt env w w' id token)
    (htokens : w.database.tokens = first.database.tokens) (hfirst : first.reads ≤ w.reads)
    (hlast : w'.reads ≤ last.reads) :
    ActiveAt env first last id token := by
  obtain ⟨n, hle, hlt, hn⟩ := h.unexpired
  refine ⟨?_, h.revokedAt, h.disabled, n, Nat.le_trans hfirst hle, Nat.lt_of_lt_of_le hlt hlast, hn⟩
  unfold Database.token
  rw [← htokens]
  exact h.found

theorem wp_active (id : String) :
    wp (active env id) (fun token w' => Reads w w' ∧ ActiveAt env w w' id token)
      (fun _ => Reads w) w := by
  unfold active
  rw [wp_bind, wp_get]
  split
  · exact .refl w
  · next token hfound =>
      rw [wp_bind, wp_refuseIf]
      refine ⟨fun _ => .refl w, fun hvalid => ?_⟩
      rw [Bool.or_eq_false_iff] at hvalid
      rw [wp_bind, wp_now, wp_bind, wp_refuseIf]
      have hread : Reads w { w with reads := w.reads + 1 } := ⟨rfl, rfl, rfl, Nat.le_succ _⟩
      refine ⟨fun _ => hread, fun hexpiry => ⟨hread, hfound, by simpa using hvalid.1, hvalid.2,
        w.reads, ?_, ?_, ?_⟩⟩
      · exact Nat.le_refl _
      · exact Nat.lt_succ_self _
      · simpa using hexpiry

/-- What admits a request: the token, its permissions and the policy. -/
structure Admitted (env : Env) (w w' : World) (args : ActionArgs) (token : NativeToken) : Prop where
  active : ActiveAt env w w' token.id token
  grants : token.grants args.tool (some args.planId) = true
  enabled : w.database.policy.enabled = true
  tool : w.database.policy.disabledTools.contains args.tool = false

theorem Admitted.widen {args : ActionArgs} {first last : World} (h : Admitted env w w' args token)
    (htokens : w.database.tokens = first.database.tokens)
    (hpolicy : w.database.policy = first.database.policy) (hfirst : first.reads ≤ w.reads)
    (hlast : w'.reads ≤ last.reads) : Admitted env first last args token := by
  refine ⟨h.active.widen htokens hfirst hlast, h.grants, ?_, ?_⟩
  · rw [← hpolicy]
    exact h.enabled
  · rw [← hpolicy]
    exact h.tool

theorem token_id {db : Database} (h : db.token id = some token) : token.id = id := by
  simpa using List.find?_some h

theorem wp_admitRequest (nativeTokenId : Option String) (args : ActionArgs)
    (expectedRevision : Option Nat) :
    wp (admitRequest env nativeTokenId args expectedRevision)
      (fun token w' => Reads w w' ∧ Admitted env w w' args token ∧ nativeTokenId = some token.id ∧
        ∀ revision, expectedRevision = some revision → token.revision = revision)
      (fun _ => Reads w) w := by
  unfold admitRequest
  rw [wp_bind, wp_refuseIf]
  refine ⟨fun _ => .refl w, fun hgiven => ?_⟩
  refine wp.bind (wp_active _) fun token w₁ h₁ => ?_
  obtain ⟨hread, hactive⟩ := h₁
  have hid := token_id hactive.found
  rw [wp_bind, wp_get, wp_bind, wp_refuseIf]
  refine ⟨fun _ => hread, fun hpolicy => ?_⟩
  rw [Bool.or_eq_false_iff] at hpolicy
  -- `can` reads the token again; the database is the same, so it is the same token.
  have hcan : wp (can env token.id args.tool (some args.planId))
      (fun granted w' => Reads w₁ w' ∧ ActiveAt env w₁ w' token.id token ∧
        granted = token.grants args.tool (some args.planId))
      (fun _ => Reads w₁) w₁ := by
    unfold can
    refine wp.bind (wp_active _) fun token' w₂ h₂ => ⟨h₂.1, ?_⟩
    obtain rfl : token' = token := by
      have hfound := h₂.2.found
      rw [hread.database, hid, hactive.found] at hfound
      exact (Option.some.inj hfound).symm
    exact ⟨h₂.2, rfl⟩
  refine wp.bind (hread.then hcan) fun granted w₂ h₂ => ?_
  obtain ⟨hread₂, hactive₂, rfl⟩ := h₂
  rw [wp_bind, wp_refuseIf]
  refine ⟨fun _ => hread₂, fun hgranted => ?_⟩
  rw [wp_bind, wp_refuseIf]
  refine ⟨fun _ => hread₂, fun hrevision => ⟨hread₂, ⟨?_, by simpa using hgranted, ?_, ?_⟩, ?_,
    fun revision hexpected => ?_⟩⟩
  · exact hactive₂.widen (congrArg Database.tokens hread.database) hread.le (Nat.le_refl _)
  · rw [← hread.database]
    simpa using hpolicy.1
  · rw [← hread.database]
    exact hpolicy.2
  · cases nativeTokenId with
    | none => simp [given] at hgiven
    | some id =>
        rw [hid]
        rfl
  · rw [hexpected] at hrevision
    simpa using (bne_eq_false_iff_eq.mp hrevision).symm

/-! ## The snapshot -/

/-- The hash of the resources that a request is about, if there is such a plan. -/
def stateHash (env : Env) (r : Resources) (args : ActionArgs) : Option String :=
  (r.plan args.planId).map fun plan => env.hashState (resourceState r plan args)

/-- A check that refuses, in a program that reads the clock alone. -/
theorem Reads.refuseIf {c : Bool} {fault : McpFault} {x : Unit → Program α} (h : Reads w w')
    (hx : wp (x ()) (fun a last => Reads w last ∧ Q a last) (fun _ => Reads w) w') :
    wp (EStateM.refuseIf c fault >>= x) (fun a last => Reads w last ∧ Q a last)
      (fun _ => Reads w) w' := by
  rw [wp_bind, wp_refuseIf]
  exact ⟨fun _ => h, fun _ => hx⟩

theorem Reads.refuse {c : Bool} {fault : McpFault} (h : Reads w w') :
    wp (EStateM.refuseIf c fault) (fun _ => Reads w) (fun _ => Reads w) w' := by
  rw [wp_refuseIf]
  exact ⟨fun _ => h, fun _ => h⟩

theorem wp_checkArguments (plan : PlanRow) (operation : Operation) (h : Reads w w') :
    wp (checkArguments env plan operation) (fun _ => Reads w) (fun _ => Reads w) w' := by
  cases operation with
  | updatePlan title => exact h.refuse
  | updateSchedule interval => exact h.refuse
  | updateExclusions exclusions =>
      unfold checkArguments
      rw [wp_bind, wp_refuseIf]
      refine ⟨fun _ => h, fun _ => ?_⟩
      split
      · exact h
      · exact h.refuse
  | _ => exact h

theorem wp_checkTemplate (plan : PlanRow) (agent : Option AgentRow) (tokenId actionId : String)
    (operation : Operation) (h : Reads w w') :
    wp (checkTemplate env plan agent tokenId actionId operation) (fun _ => Reads w)
      (fun _ => Reads w) w' := by
  cases operation with
  | createPlan title =>
      unfold checkTemplate
      refine wp.bind (h.then (wp_active tokenId)) fun token w₁ h₁ => ?_
      rw [wp_bind, wp_refuseIf]
      refine ⟨fun _ => h₁.1, fun _ => ?_⟩
      rw [wp_bind, wp_refuseIf]
      exact ⟨fun _ => h₁.1, fun _ => h₁.1.refuse⟩
  | _ => exact h

theorem wp_snapshot (args : ActionArgs) (tokenId actionId : String) :
    wp (snapshot env args tokenId actionId)
      (fun hash w' => Reads w w' ∧ stateHash env w.database.resources args = some hash)
      (fun _ => Reads w) w := by
  have h := Reads.refl w
  unfold snapshot
  rw [wp_bind, wp_get]
  dsimp only
  split
  · exact h
  · next plan hplan =>
      refine h.refuseIf (h.refuseIf (h.refuseIf (h.refuseIf (h.refuseIf (h.refuseIf ?_)))))
      refine (wp_checkArguments plan args.operation h).bind fun _ w₁ h₁ => ?_
      refine h₁.refuseIf (h₁.refuseIf ?_)
      refine wp.bind (h₁.then (wp_active tokenId)) fun token w₂ h₂ => ?_
      obtain ⟨h₂, -⟩ := h₂
      refine h₂.refuseIf (h₂.refuseIf ?_)
      refine (wp_checkTemplate plan _ tokenId actionId args.operation h₂).bind fun _ w₃ h₃ => ?_
      refine h₃.refuseIf (h₃.refuseIf ⟨h₃, ?_⟩)
      unfold stateHash
      rw [hplan]
      rfl

/-! ## Ageing -/

/-- Between the two the actions moved, none of those under way, and the clock was read. -/
structure Ages (w w' : World) : Prop where
  actions : Moved Keeps w.database.actions w'.database.actions
  others : w'.database = { w.database with actions := w'.database.actions }
  running : w'.running = w.running
  entered : w'.entered = w.entered
  le : w.reads ≤ w'.reads

theorem keeps_refl (s : Status) : Keeps s s := .inl rfl

theorem Reads.ages (h : Reads w w') : Ages w w' := by
  refine ⟨?_, ?_, h.running, h.entered, h.le⟩
  · rw [h.database]
    exact Moved.refl keeps_refl _
  · rw [h.database]

theorem Ages.refl (w : World) : Ages w w := (Reads.refl w).ages

theorem Ages.trans (h : Ages w w') (h' : Ages w' w'') : Ages w w'' := by
  refine ⟨h.actions.trans (fun hst htu => ?_) h'.actions, ?_, h'.running.trans h.running,
    h'.entered.trans h.entered,
    Nat.le_trans h.le h'.le⟩
  · exact hst.trans htu
  · rw [h'.others, h.others]

theorem Ages.tokens (h : Ages w w') : w'.database.tokens = w.database.tokens := by
  rw [h.others]

theorem Ages.policy (h : Ages w w') : w'.database.policy = w.database.policy := by
  rw [h.others]

theorem Ages.resources (h : Ages w w') : w'.database.resources = w.database.resources := by
  rw [h.others]

/-- No two rows have one id. -/
def Ids (w : World) : Prop := (w.database.actions.map fun row => row.toActionInputs.id).Nodup

theorem Ages.ids (h : Ages w w') (hids : Ids w) : Ids w' := by
  unfold Ids
  rw [h.actions.map_inputs ActionInputs.id]
  exact hids

/-- An update of rows that are allowed to move so. -/
theorem ages_update (h : ∀ row ∈ w.database.actions, cond row = true → Moves Keeps row (set row)) :
    Ages w { w with
      database := { w.database with actions := Table.update w.database.actions cond set } } :=
  ⟨moved_update keeps_refl h, rfl, rfl, rfl, Nat.le_refl _⟩

theorem Ids.unique (h : Ids w) {row row' : ActionRow} (hrow : row ∈ w.database.actions)
    (hrow' : row' ∈ w.database.actions) (heq : row'.id = row.id) : row' = row :=
  List.inj_on_of_nodup_map h hrow' hrow heq

theorem wp_expireRow
    (h : ∀ row ∈ w.database.actions, row.id = id → row.status = .pendingApproval ∨
    row.status = .expired) :
    wp (expireRow env id)
      (fun _ w' => Ages w w' ∧ ∀ row' ∈ w'.database.actions,
        ∃ row ∈ w.database.actions, row'.id = row.id ∧
        (row'.status = row.status ∨ row'.status = .expired))
      (fun _ _ => False) w := by
  unfold expireRow
  rw [wp_bind, wp_now, wp_updateActions]
  have hread : Reads w { w with reads := w.reads + 1 } := ⟨rfl, rfl, rfl, Nat.le_succ _⟩
  refine ⟨hread.ages.trans (ages_update fun row hrow hcond => ⟨rfl, ?_⟩), fun row' hrow' => ?_⟩
  · rcases h row hrow (beq_iff_eq.mp hcond) with hpending | hexpired
    · exact .inr (.inl ⟨hpending, .inl rfl⟩)
    · exact .inl hexpired.symm
  · obtain ⟨row, hrow, heq⟩ := Table.mem_update.mp hrow'
    refine ⟨row, hrow, ?_⟩
    rw [← heq]
    split
    · exact ⟨rfl, .inr rfl⟩
    · exact ⟨rfl, .inl rfl⟩

theorem wp_expire (hids : Ids w) : wp (expire env) (fun _ => Ages w) (fun _ _ => False) w := by
  unfold expire
  rw [wp_transaction, wp_bind, wp_now, wp_bind, wp_get]
  dsimp only
  have hread : Reads w { w with reads := w.reads + 1 } := ⟨rfl, rfl, rfl, Nat.le_succ _⟩
  generalize hexpired : (w.database.actions.filter fun row =>
    row.status == .pendingApproval && decide (row.expiresAt ≤ env.clock w.reads)) = expired
  -- a row to expire is pending, or was expired by the loop
  let Open (s : World) : Prop := ∀ row ∈ expired, ∀ row' ∈ s.database.actions, row'.id = row.id →
    row'.status = .pendingApproval ∨ row'.status = .expired
  have hloop : wp (expired.forM fun row => expireRow env row.id)
      (fun _ s => Ages w s ∧ Open s) (fun _ _ => False)
      { w with reads := w.reads + 1 } := by
    refine wp_forM (fun row hrow s hs => ?_) ⟨hread.ages, fun row hrow row' hrow' heq => ?_⟩
    · refine (wp_expireRow fun row' hrow' heq => hs.2 row hrow row' hrow' heq).mono
        (fun _ s' h => ?_) fun _ _ => id
      refine ⟨hs.1.trans h.1, fun other hother row' hrow' heq => ?_⟩
      obtain ⟨old, hold, hid, hstatus⟩ := h.2 row' hrow'
      rcases hstatus with hsame | hexpired'
      · rw [hsame]
        exact hs.2 other hother old hold (hid.symm.trans heq)
      · exact .inr hexpired'
    · rw [← hexpired, List.mem_filter, Bool.and_eq_true, beq_iff_eq] at hrow
      rw [hids.unique hrow.1 hrow' heq]
      exact .inl hrow.2.1
  exact hloop.mono (fun _ _ h => h.1) fun _ _ => id

theorem wp_expire_bind {x : Program α} (hids : Ids w) (hx : ∀ w', Ages w w' → wp x Q E w') :
    wp (expire env >>= fun _ => x) Q E w :=
  wp.bind ((wp_expire hids).mono (fun _ _ h => h) fun _ _ => False.elim) fun _ w' h => hx w' h

theorem action_found {db : Database} {row : ActionRow} (h : db.action id = some row) :
    row ∈ db.actions ∧ row.id = id :=
  ⟨List.mem_of_find?_eq_some h, by simpa using List.find?_some h⟩

/-- A failed transaction leaves what ageing before it has left. -/
theorem Ages.rollback (h : Ages w w') : Ages w { w' with database := w.database } :=
  ⟨Moved.refl keeps_refl _, rfl, h.running, h.entered, h.le⟩

theorem wp_reject (id actor : String) (hids : Ids w) :
    wp (reject env id actor) (fun _ => Ages w) (fun _ => Ages w) w := by
  unfold reject
  rw [wp_transaction]
  refine wp_expire_bind hids fun w₁ h₁ => ?_
  rw [wp_bind, wp_get, wp_bind, wp_refuseIf]
  refine ⟨fun _ => h₁.rollback, fun hpending => ?_⟩
  rw [wp_bind, wp_now, wp_bind, wp_now, wp_updateActions]
  have hread : Reads w₁ { w₁ with reads := w₁.reads + 1 + 1 } :=
    ⟨rfl, rfl, rfl, Nat.le_add_right w₁.reads 2⟩
  refine (h₁.trans hread.ages).trans (ages_update fun row hrow hcond =>
    ⟨rfl, .inr (.inl ⟨?_, .inr (.inl rfl)⟩)⟩)
  cases hfound : w₁.database.action id with
  | none => simp [hfound] at hpending
  | some found =>
      obtain ⟨hmem, hid⟩ := action_found hfound
      rw [(h₁.ids hids).unique hmem hrow ((beq_iff_eq.mp hcond).trans hid.symm)]
      simpa [hfound] using hpending

theorem wp_reconcile (id : String) (hids : Ids w) :
    wp (reconcile env id) (fun _ => Ages w) (fun _ => Ages w) w := by
  unfold reconcile
  rw [wp_transaction, wp_bind, wp_get, wp_bind, wp_refuseIf]
  refine ⟨fun _ => .refl w, fun huncertain => ?_⟩
  rw [wp_bind, wp_now, wp_updateActions]
  have hread : Reads w { w with reads := w.reads + 1 } := ⟨rfl, rfl, rfl, Nat.le_succ _⟩
  refine hread.ages.trans (ages_update fun row hrow hcond => ⟨rfl, .inr (.inr ⟨?_, rfl⟩)⟩)
  cases hfound : w.database.action id with
  | none => simp [hfound] at huncertain
  | some found =>
      obtain ⟨hmem, hid⟩ := action_found hfound
      rw [hids.unique hmem hrow ((beq_iff_eq.mp hcond).trans hid.symm)]
      simpa [hfound] using huncertain

theorem wp_status (nativeTokenId : Option String) (id : String) (hids : Ids w) :
    wp (status env nativeTokenId id) (fun _ => Ages w) (fun _ => Ages w) w := by
  unfold status
  rw [wp_bind, wp_refuseIf]
  refine ⟨fun _ => .refl w, fun _ => ?_⟩
  refine wp.bind ((wp_active _).mono (fun _ _ h => h) fun _ _ h => h.ages) fun _ w₁ h₁ => ?_
  refine wp.bind ((h₁.1.then (wp_active _)).mono (fun _ _ h => h) fun _ _ h =>
    h.ages) fun token w₂ h₂ => ?_
  obtain ⟨h₂, -⟩ := h₂
  rw [wp_bind, wp_refuseIf]
  refine ⟨fun _ => h₂.ages, fun _ => ?_⟩
  refine wp_expire_bind (h₂.ages.ids hids) fun w₃ h₃ => ?_
  have hall : Ages w w₃ := h₂.ages.trans h₃
  rw [wp_bind, wp_get]
  split
  · exact hall
  · rw [wp_bind, wp_refuseIf]
    exact ⟨fun _ => hall, fun _ => hall⟩

end Pluton.Mcp
