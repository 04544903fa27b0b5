-- SUMMARY: Every accepted edit of a plan keeps the passwords last supplied.
import Pluton.Lifecycle.Remote
import Pluton.Run
import Pluton.Table

/-!
# Stored credentials

A plan is edited by requests, each accepted or refused as a whole. What is stored has
one credential for each entry, under the entry's own id, and it decrypts to the password
last supplied for that id. The schema checked that password with the engine the entry
had when it was supplied: `Edit.Keeps` says of an edit that a password it keeps for a
PostgreSQL entry is one the schema lets such an entry have.
-/
namespace Pluton.Lifecycle

open Except

/-! ## Edits -/

/-- What is stored of a plan and how much was drawn at random. `supplied` is not stored:
it is the password last supplied for each id. -/
structure PlanState where
  lifecycle : Option RemoteLifecycle
  credentials : List DatabaseCredential
  drawn : Nat
  supplied : String → Option String

def PlanState.new : PlanState := ⟨none, [], 0, fun _ => none⟩

inductive Edit where
  | request (value : RemoteLifecycle)
  | remove

/-- The password that the request supplies for the id. -/
def suppliedIn (request : RemoteLifecycle) (credentials : List DatabaseCredential) (id : String) :
    Option String :=
  ((lifecycleDatabases request).zip credentials).findSome? fun entry =>
    if entry.2.databaseId == id then entry.1.password else none

variable (fold : String → String) (cryptr : Cryptr) (rnd : Entropy)

/-- A request that is refused changes nothing. -/
def PlanState.edit (s : PlanState) : Edit → PlanState
  | .remove => { s with lifecycle := none, credentials := [] }
  | .request value =>
      match prepareRemoteLifecycleCollection fold cryptr rnd s.drawn value s.lifecycle
          s.credentials with
      | .error _ => s
      | .ok (lifecycle, credentials) =>
          { lifecycle, credentials
            drawn := s.drawn + (lifecycleDatabases value).length
            supplied := fun id => (suppliedIn value credentials id).or (s.supplied id) }

/-- The entry with the password last supplied for it. -/
def PlanState.withPassword (s : PlanState) (db : RemoteDatabase) : RemoteDatabase :=
  { db with password := db.databaseId.bind s.supplied, passwordConfigured := none }

/-- The plan materialises, and every entry gets the password last supplied for its id. -/
def Usable (s : PlanState) : Prop :=
  ∀ lifecycle, s.lifecycle = some lifecycle →
    materializeRemoteLifecycleCollection fold cryptr lifecycle s.credentials =
        .ok (.collection ((lifecycleDatabases lifecycle).map s.withPassword) lifecycle.hooks) ∧
      ∀ db ∈ lifecycleDatabases lifecycle, (db.databaseId.bind s.supplied).isSome

/-- The password stored for a PostgreSQL entry that comes without one has no line break. -/
def Edit.Keeps (s : PlanState) : Edit → Prop
  | remove => True
  | request value =>
      ∀ entry ∈ lifecycleDatabases value, entry.engine = .postgresql → entry.password = none →
      ∀ credential ∈ s.credentials, some credential.databaseId = entry.databaseId →
        ∀ password, cryptr.decrypt credential.encryptedPassword = some password →
          hasLineBreak password = false

/-- The first draws were all different. -/
def Unrepeated (bound : Nat) : Prop := ∀ n < bound, ∀ m < bound, rnd.uuid n = rnd.uuid m → n = m

/-- No id that the edit draws was drawn before. -/
def Edit.Fresh (s : PlanState) : Edit → Prop
  | remove => True
  | request value => Unrepeated rnd (s.drawn + (lifecycleDatabases value).length)

/-! ## The invariant -/

/-- The credential is the one of the entry. -/
structure Bound (s : PlanState) (db : RemoteDatabase) (credential : DatabaseCredential) : Prop where
  id : db.databaseId = some credential.databaseId
  drawn : ∃ n < s.drawn, credential.databaseId = rnd.databaseId n
  bare : db.password = none
  password : ∃ password, cryptr.decrypt credential.encryptedPassword = some password ∧
    s.supplied credential.databaseId = some password ∧ validPassword password = true ∧
    (db.engine = .postgresql → hasLineBreak password = false)

/-- The entries of the stored lifecycle. -/
def PlanState.existing (s : PlanState) : List RemoteDatabase :=
  s.lifecycle.elim [] lifecycleDatabases

/-- What is stored is a valid version 2 lifecycle with one credential for each entry. -/
structure Stored (s : PlanState) : Prop where
  valid : ∀ lifecycle, s.lifecycle = some lifecycle →
    validLifecycle fold lifecycle = true ∧ lifecycle.isSingle = false
  bound : List.Forall₂ (Bound cryptr rnd s) s.existing s.credentials
  distinct : (s.credentials.map DatabaseCredential.databaseId).Nodup

variable {fold cryptr rnd} {s : PlanState}

/-! ## Lists in step -/

/-- With distinct keys, the first value found for a key is the one of the entry with it. -/
theorem findSome?_key {α β : Type} {key : α → String} {value : α → Option β} {l : List α}
    (hnodup : (l.map key).Nodup) {x : α} (hx : x ∈ l) :
    l.findSome? (fun y => if key y == key x then value y else none) = value x := by
  induction l with
  | nil => cases hx
  | cons first rest ih =>
      rw [List.map_cons, List.nodup_cons] at hnodup
      rcases List.mem_cons.mp hx with rfl | hrest
      · have hothers :
            rest.findSome? (fun y => if key y == key x then value y else none) = none := by
          apply List.findSome?_eq_none_iff.mpr
          intro y hy
          rw [if_neg]
          intro heq
          exact hnodup.1 (beq_iff_eq.mp heq ▸ List.mem_map_of_mem hy)
        rw [List.findSome?_cons, hothers]
        simp
        cases value x <;> rfl
      · have hne : key first ≠ key x := fun h => hnodup.1 (h ▸ List.mem_map_of_mem hrest)
        rw [List.findSome?_cons, if_neg (by simpa using hne)]
        exact ih hnodup.2 hrest

theorem forall₂_zipIdx {α β : Type} {R : α × Nat → β → Prop} {as : List α} {bs : List β} {k : Nat}
    (h : List.Forall₂ R (as.zipIdx k) bs) :
    List.Forall₂ (fun a b => ∃ i, k ≤ i ∧ i < k + as.length ∧ R (a, i) b) as bs := by
  induction as generalizing k bs with
  | nil =>
      cases h
      exact .nil
  | cons a as ih =>
      rw [List.zipIdx_cons] at h
      cases h with
      | cons hfirst hrest =>
          refine .cons ⟨k, Nat.le_refl k, by simp, hfirst⟩ ((ih hrest).imp ?_)
          rintro a b ⟨i, hlow, hhigh, hR⟩
          exact ⟨i, by omega, by simp only [List.length_cons]; omega, hR⟩

theorem forall₂_map_eq {α β γ : Type} {f : α → γ} {g : β → γ} {as : List α} {bs : List β}
    (h : List.Forall₂ (fun a b => f a = g b) as bs) : as.map f = bs.map g := by
  induction h with
  | nil => rfl
  | cons hab _ ih => rw [List.map_cons, List.map_cons, hab, ih]

/-! ## Ids -/

theorem Entropy.toList_databaseId (n : Nat) :
    (rnd.databaseId n).toList = ['d', 'b', '_'] ++ (rnd.uuid n).toList := by
  unfold Entropy.databaseId
  rw [String.toList_append]
  rfl

theorem Unrepeated.eq {bound n m : Nat} (h : Unrepeated rnd bound) (hn : n < bound) (hm : m < bound)
    (heq : rnd.databaseId n = rnd.databaseId m) : n = m := by
  have hlists := congrArg String.toList heq
  rw [Entropy.toList_databaseId, Entropy.toList_databaseId] at hlists
  exact h n hn m hm (String.toList_inj.mp (List.append_cancel_left hlists))

theorem Entropy.databaseId_ne_empty (n : Nat) : (rnd.databaseId n).isEmpty = false := by
  cases hempty : (rnd.databaseId n).isEmpty with
  | false => rfl
  | true =>
      have hnil := rnd.toList_databaseId n
      rw [String.isEmpty_iff.mp hempty] at hnil
      cases hnil

theorem Entropy.validDatabaseId (n : Nat) :
    Lifecycle.validDatabaseId (rnd.databaseId n) = true := by
  obtain ⟨hlength, hall⟩ := rnd.uuid_format n
  unfold Lifecycle.validDatabaseId Pattern.after Js.startsWith
  rw [rnd.toList_databaseId n]
  have hdashed : (rnd.uuid n).toList.all Pattern.dashed = true := by
    simp only [List.all_eq_true] at hall ⊢
    intro ch hch
    simp [Pattern.dashed, Pattern.word, hall ch hch]
  simp [hlength, hdashed]

/-! ## The schema -/

/-- A valid entry stays valid with another id and password that the schema accepts. -/
theorem validDatabase_set {db : RemoteDatabase} {id password : Option String}
    {configured : Option Bool} (h : validDatabase db = true) (hid : id.all validDatabaseId = true)
    (hpassword : password.all validPassword = true)
    (hbreak : db.engine = .postgresql → password.all (fun text => !hasLineBreak text) = true) :
    validDatabase { db with databaseId := id, password,
                            passwordConfigured := configured } = true := by
  unfold validDatabase validEntry at h ⊢
  simp only [Bool.and_eq_true, Bool.or_eq_true, bne_iff_ne, ne_eq] at h ⊢
  obtain ⟨hentry, hengine⟩ := h
  refine ⟨by simp_all, ?_⟩
  rcases hengine with hother | hpostgres
  · exact .inl hother
  · by_cases hengine : db.engine = .postgresql
    · unfold validPostgres at hpostgres ⊢
      simp only [Bool.and_eq_true] at hpostgres ⊢
      exact .inr ⟨hpostgres.1, hbreak hengine⟩
    · exact .inl hengine

theorem distinctEntries_map {databases : List RemoteDatabase} {f : RemoteDatabase → RemoteDatabase}
    (hname : ∀ db, (f db).dumpFilename = db.dumpFilename)
    (hid : ∀ db, (f db).databaseId = db.databaseId) :
    distinctEntries fold (databases.map f) = distinctEntries fold databases := by
  unfold distinctEntries
  simp only [List.map_map, List.filterMap_map, Function.comp_def, hname, hid]

/-! ## What is stored materialises -/

theorem materializeEntry_of_bound {db : RemoteDatabase} {credential : DatabaseCredential}
    (hdistinct : (s.credentials.map DatabaseCredential.databaseId).Nodup)
    (hbound : Bound cryptr rnd s db credential) (hmem : credential ∈ s.credentials) :
    materializeEntry cryptr s.credentials db = .ok (s.withPassword db) := by
  obtain ⟨password, hdecrypt, hsupplied, -, -⟩ := hbound.password
  obtain ⟨n, -, hid⟩ := hbound.drawn
  have hfind : (s.credentials.find? fun item => some item.databaseId == db.databaseId) =
      some credential := by
    have hkey := Table.find?_key hdistinct hmem
    simpa [hbound.id] using hkey
  have hnonempty : credential.databaseId.isEmpty = false := hid ▸ rnd.databaseId_ne_empty n
  unfold materializeEntry
  simp only [hfind, bind_eq_ok, refuseIf_eq_ok, pure_eq_ok]
  refine ⟨(), ?_, password, ?_, ?_⟩
  · simp [hbound.id, hbound.bare, hnonempty]
  · simp [decryptPassword, hdecrypt]
  · simp [PlanState.withPassword, hbound.id, hsupplied]

theorem Stored.usable (h : Stored fold cryptr rnd s) : Usable fold cryptr s := by
  intro lifecycle hlifecycle
  obtain ⟨hvalid, hsingle⟩ := h.valid lifecycle hlifecycle
  have hexisting : s.existing = lifecycleDatabases lifecycle := by
    simp [PlanState.existing, hlifecycle]
  have hbound := h.bound
  rw [hexisting] at hbound
  refine ⟨?_, ?_⟩
  · cases lifecycle with
    | single database hooks => cases hsingle
    | collection databases hooks =>
        have hentries : databases.mapM (materializeEntry cryptr s.credentials) =
            .ok (databases.map s.withPassword) := by
          rw [mapM_eq_ok, List.forall₂_map_right_iff, List.forall₂_same]
          intro db hdb
          -- Every entry is bound to a stored credential, so its password is found.
          obtain ⟨credential, hmem, hb⟩ := forall₂_mem_left hbound hdb
          exact materializeEntry_of_bound h.distinct hb hmem
        have hdistinct : distinctEntries fold (databases.map s.withPassword) =
            distinctEntries fold databases :=
          distinctEntries_map (fun _ => rfl) fun _ => rfl
        have hvalid' :
            validLifecycle fold (.collection (databases.map s.withPassword) hooks) = true := by
          simp only [validLifecycle, Bool.and_eq_true, List.all_map, List.length_map] at hvalid ⊢
          rw [hdistinct]
          refine ⟨⟨⟨?_, hvalid.1.1.2⟩, hvalid.1.2⟩, hvalid.2⟩
          simp only [List.all_eq_true] at hvalid ⊢
          intro db hdb
          obtain ⟨credential, -, hb⟩ := forall₂_mem_left hbound hdb
          obtain ⟨password, -, hsupplied, hpassword, hbreak⟩ := hb.password
          have hall := hvalid.1.1.1 db hdb
          simp only [Function.comp_apply, PlanState.withPassword, hb.id,
            Option.bind_some, hsupplied]
          rw [← hb.id]
          -- Only the password changes; the checks of the other fields carry over.
          apply validDatabase_set hall
          · unfold validDatabase validEntry at hall
            simp only [Bool.and_eq_true] at hall
            simp_all
          · exact hpassword
          · intro hengine
            simp [hbreak hengine]
        unfold materializeRemoteLifecycleCollection
        rw [bind_eq_ok]
        refine ⟨_, parseRemoteLifecycle_eq_ok.mpr ⟨hvalid, rfl⟩, ?_⟩
        rw [mapError_eq_ok]
        unfold materializeEntries
        rw [bind_eq_ok]
        exact ⟨_, hentries, parseRemoteLifecycle_eq_ok.mpr ⟨hvalid', rfl⟩⟩
  · intro db hdb
    obtain ⟨credential, -, hb⟩ := forall₂_mem_left hbound hdb
    obtain ⟨password, -, hsupplied, -, -⟩ := hb.password
    simp [hb.id, hsupplied]

/-! ## One entry of an edit -/

section

variable {input : RemoteLifecycle} {existing : List RemoteDatabase}
  {credentials : List DatabaseCredential} {index : Nat} {entry : RemoteDatabase}
  {pair : RemoteDatabase × DatabaseCredential}

/-- The id of an entry after the edit. -/
def assignedId (rnd : Entropy) (input : RemoteLifecycle) (existing : List RemoteDatabase)
    (index : Nat) (entry : RemoteDatabase) : String :=
  (entry.databaseId.or (inheritedIdOf input existing)).getD (rnd.databaseId index)

theorem prepareEntry_cases
    (h : prepareEntry cryptr rnd input existing credentials index entry = .ok pair) :
    ((entry.databaseId.or (inheritedIdOf input existing)).isSome = true →
      ∃ db ∈ existing, db.databaseId = some (assignedId rnd input existing index entry)) ∧
    pair.1 = { entry with
      databaseId := some pair.2.databaseId, password := none, passwordConfigured := some true } ∧
    pair.2.databaseId = assignedId rnd input existing index entry ∧
    encryptedPasswordOf cryptr (credentials.find? fun credential =>
      credential.databaseId == pair.2.databaseId)
      entry (rnd.salt index) = some pair.2.encryptedPassword := by
  unfold prepareEntry at h
  rw [bind_eq_ok] at h
  obtain ⟨_, hknown, hrest⟩ := h
  rw [refuseIf_eq_ok] at hknown
  split at hrest
  · cases hrest
  · next encrypted hencrypted =>
      obtain ⟨hencrypted, -⟩ := Option.filter_eq_some_iff.mp hencrypted
      cases hrest
      refine ⟨?_, rfl, rfl, hencrypted⟩
      intro hsome
      simp only [hsome, Bool.true_and, Bool.or_eq_false_iff, Bool.not_eq_eq_eq_not, Bool.not_false,
        List.any_eq_true, beq_iff_eq] at hknown
      exact hknown.2

/-- The entries an edit starts from have ids that were drawn before it. -/
def Drawn (rnd : Entropy) (existing : List RemoteDatabase) (drawn : Nat) : Prop :=
  ∀ db ∈ existing, ∀ id, db.databaseId = some id → ∃ n < drawn, id = rnd.databaseId n

/-- A known id was drawn before the edit, a new one is drawn by it. -/
theorem assignedId_cases {drawn : Nat} (hdrawn : Drawn rnd existing drawn)
    (h : prepareEntry cryptr rnd input existing credentials index entry = .ok pair) :
    (∃ n < drawn, pair.2.databaseId = rnd.databaseId n) ∧
        (entry.databaseId.or (inheritedIdOf input existing)) = some pair.2.databaseId ∨
      pair.2.databaseId = rnd.databaseId index ∧
      entry.databaseId.or (inheritedIdOf input existing) = none := by
  obtain ⟨hknown, -, hid, -⟩ := prepareEntry_cases h
  cases hsome : entry.databaseId.or (inheritedIdOf input existing) with
  | none =>
      right
      refine ⟨?_, rfl⟩
      rw [hid, assignedId, hsome]
      rfl
  | some known =>
      left
      obtain ⟨db, hdb, hdbid⟩ := hknown (by simp [hsome])
      rw [← hid] at hdbid
      refine ⟨hdrawn db hdb _ hdbid, ?_⟩
      rw [hid, assignedId, hsome]
      rfl

end

/-! ## All entries of an edit -/

section

variable {input : RemoteLifecycle} {existing : List RemoteDatabase}
  {credentials : List DatabaseCredential} {prepared : List (RemoteDatabase × DatabaseCredential)}
  {drawn : Nat}

/-- The result of preparing each entry at its index. -/
def Prepares (cryptr : Cryptr) (rnd : Entropy) (input : RemoteLifecycle)
    (existing : List RemoteDatabase) (credentials : List DatabaseCredential)
    (entry : RemoteDatabase × Nat) (pair : RemoteDatabase × DatabaseCredential) : Prop :=
  prepareEntry cryptr rnd input existing credentials entry.2 entry.1 = .ok pair

/-- In a request of version 2 the ids that come with it are distinct, and so are those it
is given. -/
theorem prepared_nodup {bound : Nat} (hfresh : Unrepeated rnd bound)
    (hdrawn : Drawn rnd existing drawn) (hinherited : inheritedIdOf input existing = none)
    {entries : List RemoteDatabase} {k : Nat} (hk : drawn ≤ k) (hlast : k + entries.length ≤ bound)
    (hids : (entries.filterMap fun db => db.databaseId.filter fun id => !id.isEmpty).Nodup)
    (h : List.Forall₂ (Prepares cryptr rnd input existing credentials)
      (entries.zipIdx k) prepared) :
    (prepared.map fun pair => pair.2.databaseId).Nodup := by
  induction entries generalizing k prepared with
  | nil =>
      cases h
      exact List.nodup_nil
  | cons entry rest ih =>
      rw [List.zipIdx_cons] at h
      cases h with
      | @cons _ pair _ pairs hpair hpairs =>
          have hrestids :
              (rest.filterMap fun db => db.databaseId.filter fun id => !id.isEmpty).Nodup := by
            refine hids.sublist ?_
            exact (List.sublist_cons_self entry rest).filterMap _
          rw [List.map_cons, List.nodup_cons]
          rw [List.length_cons] at hlast
          refine ⟨?_, ih (Nat.le_succ_of_le hk) (by omega) hrestids hpairs⟩
          intro hmem
          obtain ⟨other, hother, hsame⟩ := List.mem_map.mp hmem
          obtain ⟨⟨entry', index'⟩, hentry', hprepared'⟩ := forall₂_mem_right hpairs hother
          have hindex : k < index' := List.le_snd_of_mem_zipIdx hentry'
          have hindex' : index' < k + 1 + rest.length := List.snd_lt_add_of_mem_zipIdx hentry'
          have hfirst := assignedId_cases hdrawn hpair
          have hlater := assignedId_cases hdrawn hprepared'
          rw [hinherited, Option.or_none] at hfirst hlater
          rw [hsame] at hlater
          rcases hfirst with ⟨⟨n, hn, hid⟩, hgiven⟩ | ⟨hid, -⟩
          · rcases hlater with ⟨-, hgiven'⟩ | ⟨hid', -⟩
            · -- Both ids came with the request, which has each of them once.
              have hnonempty : (!pair.2.databaseId.isEmpty) = true := by
                rw [hid, rnd.databaseId_ne_empty]
                rfl
              have hhead : entry.databaseId.filter (fun id => !id.isEmpty) =
                  some pair.2.databaseId :=
                Option.filter_eq_some_iff.mpr ⟨hgiven, hnonempty⟩
              simp only [List.filterMap_cons, hhead, List.nodup_cons] at hids
              refine hids.1 (List.mem_filterMap.mpr ⟨entry',
                List.fst_mem_of_mem_zipIdx hentry', ?_⟩)
              exact Option.filter_eq_some_iff.mpr ⟨hgiven', hnonempty⟩
            · have := hfresh.eq (by omega) (by omega) (hid.symm.trans hid')
              omega
          · rcases hlater with ⟨⟨n, hn, hid'⟩, -⟩ | ⟨hid', -⟩
            · have := hfresh.eq (by omega) (by omega) (hid.symm.trans hid')
              omega
            · have := hfresh.eq (by omega) (by omega) (hid.symm.trans hid')
              omega

theorem prepareEntries_nodup (hfresh : Unrepeated rnd (drawn + (lifecycleDatabases input).length))
    (hdrawn : Drawn rnd existing drawn) (hvalid : validLifecycle fold input = true)
    (h : prepareEntries cryptr rnd drawn input existing credentials = .ok prepared) :
    (prepared.map fun pair => pair.2.databaseId).Nodup := by
  unfold prepareEntries at h
  rw [mapM_eq_ok] at h
  cases input with
  | single database hooks =>
      -- At most one entry.
      cases database with
      | none =>
          cases h
          exact List.nodup_nil
      | some database =>
          cases h with
          | cons _ hrest =>
              cases hrest
              exact List.nodup_singleton _
  | collection databases hooks =>
      have hids :
          (databases.filterMap fun db => db.databaseId.filter fun id => !id.isEmpty).Nodup := by
        simp only [validLifecycle, distinctEntries, Bool.and_eq_true, decide_eq_true_eq] at hvalid
        exact hvalid.2.2
      exact prepared_nodup hfresh hdrawn rfl (Nat.le_refl drawn) (Nat.le_refl _) hids h

end

/-! ## An accepted edit -/

theorem existingDatabases_eq_ok {previous : Option RemoteLifecycle} {existing : List RemoteDatabase}
    (h : existingDatabases fold previous = .ok existing) :
    existing = previous.elim [] lifecycleDatabases := by
  cases previous with
  | none => exact (Except.ok.inj h).symm
  | some previous =>
      obtain ⟨lifecycle, hlifecycle, rfl⟩ := map_eq_ok.mp h
      obtain ⟨-, rfl⟩ := parseRemoteLifecycle_eq_ok.mp hlifecycle
      rfl

theorem prepareRemoteLifecycleCollection_cases {request : RemoteLifecycle}
    {previous lifecycle : Option RemoteLifecycle} {credentials stored : List DatabaseCredential}
    {drawn : Nat}
    (h : prepareRemoteLifecycleCollection fold cryptr rnd drawn request previous credentials =
      .ok (lifecycle, stored)) :
    validLifecycle fold request = true ∧ ∃ prepared,
      prepareEntries cryptr rnd drawn request
        (previous.elim [] lifecycleDatabases) credentials = .ok prepared ∧
      stored = prepared.map Prod.snd ∧ lifecycle = if (prepared.map Prod.fst).isEmpty &&
      request.hooks.isEmpty then none
        else some (.collection (prepared.map Prod.fst) request.hooks) := by
  unfold prepareRemoteLifecycleCollection at h
  simp only [bind_eq_ok, pure_eq_ok] at h
  obtain ⟨input, hinput, existing, hexisting, _, -, prepared, hprepared, hpair⟩ := h
  obtain ⟨hvalid, rfl⟩ := parseRemoteLifecycle_eq_ok.mp hinput
  obtain rfl := existingDatabases_eq_ok hexisting
  cases hpair
  exact ⟨hvalid, prepared, hprepared, rfl, rfl⟩

theorem Stored.drawn (h : Stored fold cryptr rnd s) : Drawn rnd s.existing s.drawn := by
  intro db hdb id hid
  obtain ⟨credential, -, hbound⟩ := forall₂_mem_left h.bound hdb
  obtain rfl : credential.databaseId = id := Option.some.inj (hbound.id.symm.trans hid)
  exact hbound.drawn

/-- An entry of a request that the schema accepts. -/
theorem validDatabase_of_mem {request : RemoteLifecycle} {entry : RemoteDatabase}
    (h : validLifecycle fold request = true) (hentry : entry ∈ lifecycleDatabases request) :
    validDatabase entry = true ∧ (request.isSingle = true → entry.engine ≠ .postgresql) := by
  cases request with
  | single database hooks =>
      obtain rfl : database = some entry := Option.mem_toList.mp hentry
      simp only [validLifecycle, Option.all_some, Bool.and_eq_true, bne_iff_ne] at h
      exact ⟨h.1.1.1, fun _ => h.1.1.2⟩
  | collection databases hooks =>
      simp only [validLifecycle, Bool.and_eq_true, List.all_eq_true] at h
      exact ⟨h.1.1.1 entry hentry, fun hsingle => by cases hsingle⟩

section

variable {request : RemoteLifecycle} {prepared : List (RemoteDatabase × DatabaseCredential)}

/-- The state after an accepted edit. -/
def PlanState.accept (s : PlanState) (request : RemoteLifecycle)
    (prepared : List (RemoteDatabase × DatabaseCredential)) (lifecycle : Option RemoteLifecycle) :
    PlanState where
  lifecycle := lifecycle
  credentials := prepared.map Prod.snd
  drawn := s.drawn + (lifecycleDatabases request).length
  supplied := fun id => (suppliedIn request (prepared.map Prod.snd) id).or (s.supplied id)

theorem suppliedIn_eq (hnodup : (prepared.map fun pair => pair.2.databaseId).Nodup)
    (hlength : (lifecycleDatabases request).length = prepared.length) {entry : RemoteDatabase}
    {pair : RemoteDatabase × DatabaseCredential}
    (hmem : (entry, pair) ∈ (lifecycleDatabases request).zip prepared) :
    suppliedIn request (prepared.map Prod.snd) pair.2.databaseId = entry.password := by
  have hzip : (lifecycleDatabases request).zip (prepared.map Prod.snd) =
      ((lifecycleDatabases request).zip prepared).map (Prod.map id Prod.snd) := List.zip_map_right
  have hkeys : ((lifecycleDatabases request).zip (prepared.map Prod.snd)).map (fun entry =>
      entry.2.databaseId) =
      prepared.map fun pair => pair.2.databaseId := by
    have hsnd : ((lifecycleDatabases request).zip (prepared.map Prod.snd)).map Prod.snd =
        prepared.map Prod.snd :=
      List.map_snd_zip (by simp [hlength])
    have := congrArg (List.map DatabaseCredential.databaseId) hsnd
    simpa [List.map_map, Function.comp_def] using this
  have hin : (entry, pair.2) ∈ (lifecycleDatabases request).zip (prepared.map Prod.snd) := by
    rw [hzip]
    exact List.mem_map.mpr ⟨(entry, pair), hmem, rfl⟩
  unfold suppliedIn
  rw [← hkeys] at hnodup
  exact findSome?_key hnodup hin

/-- The password that an entry supplies, or the one stored for it, with what the schema
asks of it. -/
theorem kept_password {entry : RemoteDatabase} {pair : RemoteDatabase × DatabaseCredential}
    {index : Nat} (hs : Stored fold cryptr rnd s) (hkeeps : (Edit.request request).Keeps cryptr s)
    (hvalid : validLifecycle fold request = true) (hentry : entry ∈ lifecycleDatabases request)
    (hfresh : Unrepeated rnd (s.drawn + (lifecycleDatabases request).length))
    (hlow : s.drawn ≤ index) (hhigh : index < s.drawn + (lifecycleDatabases request).length)
    (h : prepareEntry cryptr rnd request s.existing s.credentials index entry = .ok pair) :
    ∃ password, cryptr.decrypt pair.2.encryptedPassword = some password ∧
      entry.password.or (s.supplied pair.2.databaseId) = some password ∧
      validPassword password = true ∧
      (entry.engine = .postgresql → hasLineBreak password = false) := by
  obtain ⟨hdatabase, hsingle⟩ := validDatabase_of_mem hvalid hentry
  obtain ⟨-, -, -, hencrypted⟩ := prepareEntry_cases h
  unfold encryptedPasswordOf at hencrypted
  cases hpassword : entry.password with
  | some password =>
      -- A new password was checked with the entry it came with.
      rw [hpassword] at hencrypted
      refine ⟨password, ?_, rfl, ?_, ?_⟩
      · rw [← Option.some.inj hencrypted]
        exact cryptr.decrypt_encrypt _ _
      · unfold validDatabase validEntry at hdatabase
        simp only [Bool.and_eq_true, hpassword, Option.all_some] at hdatabase
        exact hdatabase.1.1.2
      · intro hengine
        unfold validDatabase validPostgres at hdatabase
        have hpostgres := (Bool.and_eq_true_iff.mp hdatabase).2
        simp only [hengine, hpassword, bne_self_eq_false, Bool.false_or,
          Bool.and_eq_true, Option.all_some, Bool.not_eq_eq_eq_not, Bool.not_true] at hpostgres
        exact hpostgres.2
  | none =>
      rw [hpassword] at hencrypted
      obtain ⟨old, hold, hsame⟩ := Option.map_eq_some_iff.mp hencrypted
      have hmem := List.mem_of_find?_eq_some hold
      have hid : old.databaseId = pair.2.databaseId := by simpa using List.find?_some hold
      obtain ⟨db, -, hbound⟩ := forall₂_mem_right hs.bound hmem
      obtain ⟨password, hdecrypt, hsupplied, hpass, -⟩ := hbound.password
      refine ⟨password, hsame ▸ hdecrypt, ?_, hpass, ?_⟩
      · rw [← hid]
        exact hsupplied
      · intro hengine
        obtain ⟨n, hn, hnid⟩ := hbound.drawn
        rcases assignedId_cases hs.drawn h with ⟨-, hknown⟩ | ⟨hnew, -⟩
        · cases hgiven : entry.databaseId with
          | some given =>
              rw [hgiven] at hknown
              obtain rfl : given = pair.2.databaseId := Option.some.inj hknown
              exact hkeeps entry hentry hengine hpassword old hmem
                (by rw [hid, hgiven]) password hdecrypt
          | none =>
              -- Only a single-database request inherits an id, and it has no PostgreSQL entry.
              cases request with
              | single database hooks => exact absurd hengine (hsingle rfl)
              | collection databases hooks =>
                  rw [hgiven] at hknown
                  cases hknown
        · -- A new id has no stored credential.
          have := hfresh.eq (by omega) hhigh ((hnid.symm.trans hid).trans hnew)
          omega

theorem accept_bound {lifecycle : Option RemoteLifecycle} (hs : Stored fold cryptr rnd s)
    (hkeeps : (Edit.request request).Keeps cryptr s) (hfresh : (Edit.request request).Fresh rnd s)
    (hvalid : validLifecycle fold request = true)
    (h : prepareEntries cryptr rnd s.drawn request s.existing s.credentials = .ok prepared) :
    ∀ pair ∈ prepared, Bound cryptr rnd (s.accept request prepared lifecycle) pair.1 pair.2 := by
  have hnodup := prepareEntries_nodup hfresh hs.drawn hvalid h
  have hinstep := forall₂_zipIdx (mapM_eq_ok.mp h)
  obtain ⟨hlength, hzip⟩ := List.forall₂_iff_zip.mp hinstep
  intro pair hpair
  obtain ⟨i, hi, rfl⟩ := List.mem_iff_getElem.mp hpair
  have hmem : ((lifecycleDatabases request)[i], prepared[i]) ∈
      (lifecycleDatabases request).zip prepared := by
    rw [← List.getElem_zip (h := by simp [hlength, hi])]
    exact List.getElem_mem _
  obtain ⟨index, hlow, hhigh, hprepare⟩ := hzip hmem
  obtain ⟨-, hsaved, -, -⟩ := prepareEntry_cases hprepare
  obtain ⟨password, hdecrypt, hsupplied, hpass, hbreak⟩ :=
    kept_password hs hkeeps hvalid (List.getElem_mem _) hfresh hlow hhigh hprepare
  refine { id := by rw [hsaved], drawn := ?_, bare := by rw [hsaved], password := ?_ }
  · rcases assignedId_cases hs.drawn hprepare with ⟨⟨n, hn, hid⟩, -⟩ | ⟨hid, -⟩
    · exact ⟨n, Nat.lt_of_lt_of_le hn (Nat.le_add_right _ _), hid⟩
    · exact ⟨index, hhigh, hid⟩
  · refine ⟨password, hdecrypt, ?_, hpass, ?_⟩
    · unfold PlanState.accept
      dsimp only
      rw [suppliedIn_eq hnodup hlength hmem]
      exact hsupplied
    · rw [hsaved]
      exact hbreak

/-- A valid request has at most eight entries, with distinct artifacts. -/
theorem validLifecycle_entries (h : validLifecycle fold request = true) :
    (lifecycleDatabases request).length ≤ maxPlanDatabases ∧
      ((lifecycleDatabases request).map fun db => fold db.dumpFilename).Nodup ∧
      validHooks request.hooks = true := by
  cases request with
  | single database hooks =>
      simp only [validLifecycle, Bool.and_eq_true] at h
      cases database with
      | none => exact ⟨by simp [lifecycleDatabases], List.nodup_nil, h.2⟩
      | some database =>
          exact ⟨by simp [lifecycleDatabases, maxPlanDatabases], List.nodup_singleton _, h.2⟩
  | collection databases hooks =>
      simp only [validLifecycle, distinctEntries, Bool.and_eq_true, decide_eq_true_eq] at h
      exact ⟨h.1.1.2, h.2.1, h.1.2⟩

theorem accept_valid {s' : PlanState} (hs : Stored fold cryptr rnd s)
    (hfresh : (Edit.request request).Fresh rnd s) (hvalid : validLifecycle fold request = true)
    (hbound : ∀ pair ∈ prepared, Bound cryptr rnd s' pair.1 pair.2)
    (h : prepareEntries cryptr rnd s.drawn request s.existing s.credentials = .ok prepared) :
    validLifecycle fold (.collection (prepared.map Prod.fst) request.hooks) = true := by
  obtain ⟨hmax, hnames, hhooks⟩ := validLifecycle_entries hvalid
  have hnodup := prepareEntries_nodup hfresh hs.drawn hvalid h
  have hinstep := forall₂_zipIdx (mapM_eq_ok.mp h)
  have hsame : (lifecycleDatabases request).map (fun db => fold db.dumpFilename) =
      prepared.map fun pair => fold pair.1.dumpFilename := by
    apply forall₂_map_eq
    apply hinstep.imp
    rintro entry pair ⟨index, -, -, hprepare⟩
    rw [(prepareEntry_cases hprepare).2.1]
  have hids : prepared.filterMap (fun pair => pair.1.databaseId.filter fun id => !id.isEmpty) =
      prepared.map fun pair => pair.2.databaseId := by
    rw [List.filterMap_eq_map_iff_forall_eq_some]
    intro pair hpair
    obtain ⟨n, -, hid⟩ := (hbound pair hpair).drawn
    rw [(hbound pair hpair).id, Option.filter_eq_some_iff, hid, rnd.databaseId_ne_empty]
    exact ⟨rfl, rfl⟩
  simp only [validLifecycle, distinctEntries, Bool.and_eq_true, decide_eq_true_eq,
    List.length_map, List.map_map, List.filterMap_map, Function.comp_def,
    List.all_map, List.all_eq_true]
  refine ⟨⟨⟨?_, ?_⟩, hhooks⟩, hsame ▸ hnames, hids ▸ hnodup⟩
  · intro pair hpair
    obtain ⟨entry, hentry, index, -, -, hprepare⟩ := forall₂_mem_right hinstep hpair
    obtain ⟨n, -, hid⟩ := (hbound pair hpair).drawn
    rw [(prepareEntry_cases hprepare).2.1]
    apply validDatabase_set (validDatabase_of_mem hvalid hentry).1
    · rw [hid]
      exact rnd.validDatabaseId n
    · rfl
    · exact fun _ => rfl
  · rw [← hinstep.length_eq]
    exact hmax

/-- An accepted edit leaves a lifecycle with a credential for each of its entries. -/
theorem accept_stored {lifecycle : Option RemoteLifecycle} (hs : Stored fold cryptr rnd s)
    (hkeeps : (Edit.request request).Keeps cryptr s) (hfresh : (Edit.request request).Fresh rnd s)
    (hvalid : validLifecycle fold request = true)
    (h : prepareEntries cryptr rnd s.drawn request s.existing s.credentials = .ok prepared)
    (hlifecycle : lifecycle = if (prepared.map Prod.fst).isEmpty && request.hooks.isEmpty then none
      else some (.collection (prepared.map Prod.fst) request.hooks)) :
    Stored fold cryptr rnd (s.accept request prepared lifecycle) := by
  have hbound : ∀ pair ∈ prepared,
      Bound cryptr rnd (s.accept request prepared lifecycle) pair.1 pair.2 :=
    accept_bound hs hkeeps hfresh hvalid h
  have hexisting : (s.accept request prepared lifecycle).existing = prepared.map Prod.fst := by
    unfold PlanState.existing PlanState.accept
    rw [hlifecycle]
    split
    · next hempty =>
        rw [List.isEmpty_iff.mp (Bool.and_eq_true_iff.mp hempty).1]
        rfl
    · rfl
  refine { valid := ?_, bound := ?_, distinct := ?_ }
  · intro stored hstored
    change lifecycle = some stored at hstored
    rw [hlifecycle] at hstored
    split at hstored
    · cases hstored
    · cases hstored
      exact ⟨accept_valid hs hfresh hvalid hbound h, rfl⟩
  · rw [hexisting]
    change List.Forall₂ _ _ (prepared.map Prod.snd)
    rw [List.forall₂_map_left_iff, List.forall₂_map_right_iff, List.forall₂_same]
    exact hbound
  · change ((prepared.map Prod.snd).map DatabaseCredential.databaseId).Nodup
    rw [List.map_map]
    exact prepareEntries_nodup hfresh hs.drawn hvalid h

end

/-! ## Runs of edits -/

theorem stored_none {drawn : Nat} {supplied : String → Option String} :
    Stored fold cryptr rnd ⟨none, [], drawn, supplied⟩ where
  valid _ h := by cases h
  bound := .nil
  distinct := List.nodup_nil

theorem edit_stored {edit : Edit} (hs : Stored fold cryptr rnd s) (hkeeps : edit.Keeps cryptr s)
    (hfresh : edit.Fresh rnd s) :
    Stored fold cryptr rnd (s.edit fold cryptr rnd edit) := by
  cases edit with
  | remove => exact stored_none
  | request value =>
      unfold PlanState.edit
      dsimp only
      cases hprepare : prepareRemoteLifecycleCollection fold cryptr rnd s.drawn value
        s.lifecycle s.credentials with
      | error refusal => exact hs
      | ok result =>
          obtain ⟨lifecycle, credentials⟩ := result
          obtain ⟨hvalid, prepared, hentries, rfl, hlifecycle⟩ :=
            prepareRemoteLifecycleCollection_cases hprepare
          exact accept_stored hs hkeeps hfresh hvalid hentries hlifecycle

/-- In every state of a run of edits that keep no password with a line break for a
PostgreSQL entry, the plan materialises to the passwords last supplied. -/
theorem credentials_usable (fold : String → String) (cryptr : Cryptr) (rnd : Entropy)
    (edits : List Edit)
    (hfresh : Run.Along (PlanState.edit fold cryptr rnd)
      (fun s edit => edit.Fresh rnd s) .new edits)
    (hkeeps : Run.Along (PlanState.edit fold cryptr rnd)
      (fun s edit => edit.Keeps cryptr s) .new edits)
    (reached : Nat) :
    Usable fold cryptr ((edits.take reached).foldl (PlanState.edit fold cryptr rnd) .new) := by
  have hboth := hfresh.and hkeeps
  rw [← List.take_append_drop reached edits, Run.along_append] at hboth
  have hstored :
      Stored fold cryptr rnd ((edits.take reached).foldl (PlanState.edit fold cryptr rnd) .new) :=
    hboth.1.invariant (fun _ _ hok hs => edit_stored hs hok.2 hok.1) stored_none
  exact hstored.usable

/-! ## An entry that changes its engine -/

/-- A cipher that writes the text after a mark. -/
def markCryptr : Cryptr where
  encrypt _ text := "*" ++ text
  decrypt text := some (String.ofList (text.toList.drop 1))
  decrypt_encrypt _ text := by simp

/-- The draws of a run with two entries. -/
def twoDraws : Entropy where
  uuid n := if n = 0 then "0123456789abcdef0123456789abcdef" else "fedcba9876543210fedcba9876543210"
  salt _ := 0
  uuid_format n := by
    split
    · decide +kernel
    · decide +kernel

/-- A database entry of a request. -/
def exampleEntry (databaseId : Option String) (engine : Engine) (password : Option String) :
    RemoteDatabase where
  databaseId := databaseId
  engine := engine
  host := "db.internal"
  port := 5432
  tls := .verifyIdentity
  database := "app"
  username := "backup"
  dumpFilename := "app.sql"
  timeoutSeconds := 600
  maxDumpBytes := 1048576
  includeRoutines := false
  includeEvents := false
  password := password
  passwordConfigured := none

/-- A MySQL entry with a password, which then becomes a PostgreSQL entry without a new one. -/
def engineChange (password : String) : List Edit :=
  [.request (.collection [exampleEntry none .mysql (some password)] ⟨none, none⟩),
    .request (.collection
      [exampleEntry (some "db_0123456789abcdef0123456789abcdef") .postgresql none] ⟨none, none⟩)]

theorem drawn_edit_le {value : RemoteLifecycle} :
    (s.edit fold cryptr rnd (.request value)).drawn ≤
      s.drawn + (lifecycleDatabases value).length := by
  unfold PlanState.edit
  dsimp only
  split
  · exact Nat.le_add_right _ _
  · exact Nat.le_refl _

theorem twoDraws_unrepeated {bound : Nat} (hbound : bound ≤ 2) : Unrepeated twoDraws bound := by
  intro n hn m hm
  have hn' : n = 0 ∨ n = 1 := by omega
  have hm' : m = 0 ∨ m = 1 := by omega
  rcases hn' with rfl | rfl <;> rcases hm' with rfl | rfl <;> decide +kernel

theorem engineChange_fresh (password : String) :
    Run.Along (PlanState.edit id markCryptr twoDraws) (fun s edit => edit.Fresh twoDraws s) .new
      (engineChange password) := by
  refine ⟨twoDraws_unrepeated (Nat.le_succ 1), twoDraws_unrepeated ?_, trivial⟩
  exact Nat.add_le_add_right drawn_edit_le 1

/-- Without a line break the plan is usable with either engine. -/
theorem credentials_usable_of_engineChange :
    Usable id markCryptr ((engineChange "secret").foldl
      (PlanState.edit id markCryptr twoDraws) .new) := by
  refine credentials_usable id markCryptr twoDraws (engineChange "secret")
    (engineChange_fresh _) ⟨?_, ?_, trivial⟩ 2
  · intro entry _ _ _ credential hmem
    cases hmem
  · intro entry _ _ _ credential hmem _ password hdecrypt
    have hstored :
        (((engineChange "secret").take 1).foldl
          (PlanState.edit id markCryptr twoDraws) .new).credentials =
        [⟨"db_0123456789abcdef0123456789abcdef", "*secret", false⟩] := by decide +kernel
    change credential ∈ (((engineChange "secret").take 1).foldl
      (PlanState.edit id markCryptr twoDraws) .new).credentials at hmem
    rw [hstored, List.mem_singleton] at hmem
    subst hmem
    have hpassword : markCryptr.decrypt "*secret" = some "secret" := by decide +kernel
    rw [hpassword] at hdecrypt
    cases hdecrypt
    decide +kernel

/-- The line break was fine for MySQL; the PostgreSQL entry cannot be materialised with it. -/
theorem line_break_kept_for_postgresql :
    ¬ ∀ (fold : String → String) (cryptr : Cryptr) (rnd : Entropy) (edits : List Edit),
      Run.Along (PlanState.edit fold cryptr rnd) (fun s edit => edit.Fresh rnd s) .new edits →
        Usable fold cryptr (edits.foldl (PlanState.edit fold cryptr rnd) .new) := by
  intro h
  have husable := h id markCryptr twoDraws (engineChange "a\nb") (engineChange_fresh _)
  have hlifecycle :
      ((engineChange "a\nb").foldl (PlanState.edit id markCryptr twoDraws) .new).lifecycle =
      some (.collection
        [{ exampleEntry (some "db_0123456789abcdef0123456789abcdef") .postgresql none with
        passwordConfigured := some true }] ⟨none, none⟩) := by decide +kernel
  have hrefused : (materializeRemoteLifecycleCollection id markCryptr
      (.collection
        [{ exampleEntry (some "db_0123456789abcdef0123456789abcdef") .postgresql none with
        passwordConfigured := some true }] ⟨none, none⟩)
      ((engineChange "a\nb").foldl (PlanState.edit id markCryptr twoDraws) .new).credentials).isOk =
        false := by
    decide +kernel
  rw [(husable _ hlifecycle).1] at hrefused
  cases hrefused

end Pluton.Lifecycle
