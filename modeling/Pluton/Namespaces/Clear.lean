-- SUMMARY: What each scope assertion establishes of the references it is handed.
import Pluton.Namespaces.Stores

/-!
# Clear references

A reference is clear when it resolves, and to no scope or to one that overlaps no
reservation. Each assertion that returns leaves the references it read clear; the
checks of a reservation leave every reference of the database clear of the selected
location.
-/
namespace Pluton.Namespaces

open Except

/-- The scope is apart from every location in the list. -/
def Apart (env : Env) (reserved : List Scope) (scope : Scope) : Prop :=
  ∀ location ∈ reserved, namespaceScopesOverlap env.pathname location scope = .ok false

/-- The reference resolves, with the edited storage in place of its row, and its scope
is apart from every location in the list. -/
def ClearOf (env : Env) (db : Database) (override : Option Storage) (reserved : List Scope)
    (reference : Reference) : Prop :=
  ∃ scope, referenceScope env db reference override = .ok scope ∧ ∀ owned ∈ scope,
    Apart env reserved owned

/-- The reference is clear of the reservations. -/
def Clear (env : Env) (db : Database) (override : Option Storage) (reference : Reference) : Prop :=
  ClearOf env db override db.reservations reference

variable {env : Env} {db db' : Database} {override : Option Storage} {reference : Reference}
  {reserved : List Scope} {id : String} {u : Unit} {next : Storage}

/-! ## Resolution -/

theorem storageFor_self : storageFor db (some next) next.id = some next := by
  simp [storageFor, Option.filter]

theorem storageFor_of_ne (h : next.id ≠ id) :
    storageFor db (some next) id = storageFor db none id := by
  simp [storageFor, Option.filter, h]

theorem referenceScope_of_named (hid : truthy reference.storageId = some id) :
    referenceScope env db reference override =
      (lookupResolution env db override id >>= fun resolution =>
        resolution.scope env reference.storagePath) := by
  unfold referenceScope cachedReferenceScope
  rw [hid]
  dsimp only [List.lookup_nil]
  cases lookupResolution env db override id with
  | error failure => rfl
  | ok resolution =>
      change ((resolution.scope env reference.storagePath) >>= _).map _ = resolution.scope env _
      cases resolution.scope env reference.storagePath with
      | error failure => rfl
      | ok scope => rfl

theorem referenceScope_of_unnamed (hid : truthy reference.storageId = none) :
    referenceScope env db reference override = .ok none := by
  unfold referenceScope cachedReferenceScope
  rw [hid]
  rfl

theorem clearOf_of_unnamed (hid : truthy reference.storageId = none) :
    ClearOf env db override reserved reference :=
  ⟨none, referenceScope_of_unnamed hid, by simp⟩

/-- A reference resolves alike in two databases that hold the same storage for it. -/
theorem referenceScope_congr {override' : Option Storage}
    (h : ∀ id, truthy reference.storageId = some id →
      storageFor db' override' id = storageFor db override id) :
    referenceScope env db' reference override' = referenceScope env db reference override := by
  cases hid : truthy reference.storageId with
  | none => rw [referenceScope_of_unnamed hid, referenceScope_of_unnamed hid]
  | some id =>
      rw [referenceScope_of_named hid, referenceScope_of_named hid]
      unfold lookupResolution
      rw [h id hid]

/-- A clear reference that names a storage names one that is there. -/
theorem ClearOf.storage (h : ClearOf env db override reserved reference)
    (hid : truthy reference.storageId = some id) :
    ∃ storage, storageFor db override id = some storage := by
  obtain ⟨scope, hscope, -⟩ := h
  rw [referenceScope_of_named hid, bind_eq_ok] at hscope
  obtain ⟨resolution, hlookup, -⟩ := hscope
  unfold lookupResolution at hlookup
  cases hstorage : storageFor db override id with
  | some storage => exact ⟨storage, rfl⟩
  | none =>
      rw [hstorage] at hlookup
      cases hlookup

theorem ClearOf.append {more : List Scope} (h : ClearOf env db override reserved reference)
    (hmore : ClearOf env db override more reference) :
    ClearOf env db override (reserved ++ more) reference := by
  obtain ⟨scope, hscope, hclear⟩ := h
  obtain ⟨scope', hscope', hclear'⟩ := hmore
  obtain rfl : scope = scope' := by
    rw [hscope] at hscope'
    exact Except.ok.inj hscope'
  refine ⟨scope, hscope, fun owned howned location hlocation => ?_⟩
  rcases List.mem_append.mp hlocation with hold | hnew
  · exact hclear owned howned location hold
  · exact hclear' owned howned location hnew

/-! ## The assertions -/

theorem assertExportRepositoryScope_eq_ok {candidate : Scope} :
    assertExportRepositoryScope env db candidate = .ok u ↔ Apart env db.reservations candidate := by
  unfold assertExportRepositoryScope Apart
  simp [bind_eq_ok, anyM_eq_false]

theorem assertReference_eq_ok :
    assertReference env db override reference = .ok u ↔ Clear env db override reference := by
  unfold assertReference Clear ClearOf
  rw [bind_eq_ok]
  apply exists_congr
  intro scope
  apply and_congr_right
  intro _
  cases scope with
  | none => simp [assertCandidate]
  | some candidate => simp [assertCandidate, assertExportRepositoryScope_eq_ok]

theorem assertExportPlanScope_clear {plan : PlanObject} (hres : db.reservations ≠ [])
    (h : assertExportPlanScope env db plan override = .ok u) :
    ∀ reference ∈ plan.references, Clear env db override reference := by
  unfold assertExportPlanScope at h
  rw [if_neg (by simpa using hres), bind_eq_ok] at h
  obtain ⟨_, -, hall⟩ := h
  intro reference hmem
  exact assertReference_eq_ok.mp (forM_eq_ok.mp hall reference hmem)

/-- The references of a backup object: its own and its mirrors'. -/
def BackupObject.references (backup : BackupObject) : List Reference :=
  ⟨backup.storageId.or backup.storage_id, backup.storagePath.or backup.storage_path⟩ ::
    backup.mirrors.references

theorem Mirrors.references_of_decode {mirrors : Mirrors} {decoded : List Reference}
    (h : mirrors.decode = .ok decoded) : mirrors.references = decoded := by
  cases mirrors with
  | null => exact Except.ok.inj h
  | array list => exact Except.ok.inj h
  | other => cases h

theorem assertExportBackupScope_clear {backup : BackupObject} (hres : db.reservations ≠ [])
    (h : assertExportBackupScope env db backup override = .ok u) :
    ∀ reference ∈ backup.references, Clear env db override reference := by
  unfold assertExportBackupScope at h
  rw [if_neg (by simpa using hres), bind_eq_ok] at h
  obtain ⟨mirrors, hmirrors, hplan⟩ := h
  have hclear := assertExportPlanScope_clear hres hplan
  unfold BackupObject.references
  rw [Mirrors.references_of_decode hmirrors]
  exact hclear

theorem assertExportSettingsScope_clear {row : SettingsRow} (hres : db.reservations ≠ [])
    (h : assertExportSettingsScope env db row.selfBackup override = .ok u) :
    ∀ reference ∈ row.references, Clear env db override reference := by
  intro reference hmem
  unfold SettingsRow.references at hmem
  cases hself : row.selfBackup with
  | none => simp [hself] at hmem
  | some selfBackup =>
      obtain rfl : reference = selfBackup.reference := by simpa [hself] using hmem
      rw [hself] at h
      unfold assertExportSettingsScope at h
      cases hid : truthy selfBackup.storageId with
      | none => exact clearOf_of_unnamed hid
      | some id =>
          dsimp only at h
          rw [if_neg (by simpa [hid] using hres)] at h
          exact assertReference_eq_ok.mp h

theorem assertNaming_clear {references : List Reference}
    (h : assertNaming env db id next references = .ok u) :
    ∀ reference ∈ references, reference.storageId = some id →
      Clear env db (some next) reference := by
  intro reference hmem hid
  exact assertReference_eq_ok.mp (forM_eq_ok.mp h reference (List.mem_filter.mpr ⟨hmem, by
    simpa using hid⟩))

/-! ## Every row of the database -/

/-- Every reference of every row satisfies `P`, and every reserved destination `Q`. -/
structure Held (db : Database) (P : Reference → Prop) (Q : Scope → Prop) : Prop where
  plans : ∀ row ∈ db.plans, ∀ reference ∈ row.references, P reference
  backups : ∀ row ∈ db.backups, ∀ reference ∈ row.references, P reference
  remote : ∀ row ∈ db.remoteManagedRepositories, P row.reference
  retained : ∀ row ∈ db.retainedManagedRepositories, P row.reference
  destinations : ∀ row ∈ db.destinations, P row.reference
  sources : ∀ row ∈ db.jobs, P row.source
  targets : ∀ row ∈ db.jobs, P row.destination
  settings : ∀ row ∈ db.settings, ∀ reference ∈ row.references, P reference
  bound : ∀ row ∈ db.destinations, Q row.scope

section

variable {P P' : Reference → Prop} {Q Q' : Scope → Prop}

theorem Held.imp (h : Held db P Q) (hP : ∀ reference, P reference → P' reference)
    (hQ : ∀ scope, Q scope → Q' scope) : Held db P' Q' where
  plans row hrow reference hmem := hP reference (h.plans row hrow reference hmem)
  backups row hrow reference hmem := hP reference (h.backups row hrow reference hmem)
  remote row hrow := hP _ (h.remote row hrow)
  retained row hrow := hP _ (h.retained row hrow)
  destinations row hrow := hP _ (h.destinations row hrow)
  sources row hrow := hP _ (h.sources row hrow)
  targets row hrow := hP _ (h.targets row hrow)
  settings row hrow reference hmem := hP reference (h.settings row hrow reference hmem)
  bound row hrow := hQ _ (h.bound row hrow)

theorem Held.and (h : Held db P Q) (h' : Held db P' Q') :
    Held db (fun reference => P reference ∧ P' reference) fun scope => Q scope ∧ Q' scope where
  plans row hrow reference hmem :=
    ⟨h.plans row hrow reference hmem, h'.plans row hrow reference hmem⟩
  backups row hrow reference hmem :=
    ⟨h.backups row hrow reference hmem, h'.backups row hrow reference hmem⟩
  remote row hrow := ⟨h.remote row hrow, h'.remote row hrow⟩
  retained row hrow := ⟨h.retained row hrow, h'.retained row hrow⟩
  destinations row hrow := ⟨h.destinations row hrow, h'.destinations row hrow⟩
  sources row hrow := ⟨h.sources row hrow, h'.sources row hrow⟩
  targets row hrow := ⟨h.targets row hrow, h'.targets row hrow⟩
  settings row hrow reference hmem :=
    ⟨h.settings row hrow reference hmem, h'.settings row hrow reference hmem⟩
  bound row hrow := ⟨h.bound row hrow, h'.bound row hrow⟩

theorem Held.of_mem (h : Held db P Q) (hmem : reference ∈ db.references) : P reference := by
  unfold Database.references at hmem
  simp only [List.mem_append, List.mem_flatMap, List.mem_map] at hmem
  rcases hmem with
    ((((((⟨row, hrow, hr⟩ | ⟨row, hrow, hr⟩) | ⟨row, hrow, rfl⟩) | ⟨row, hrow, rfl⟩) |
    ⟨row, hrow, rfl⟩) | ⟨row, hrow, rfl⟩) | ⟨row, hrow, rfl⟩) | ⟨row, hrow, hr⟩
  · exact h.plans row hrow reference hr
  · exact h.backups row hrow reference hr
  · exact h.remote row hrow
  · exact h.retained row hrow
  · exact h.destinations row hrow
  · exact h.sources row hrow
  · exact h.targets row hrow
  · exact h.settings row hrow reference hr

end

/-- The check of an edited storage, for rows that were clear before the edit. -/
theorem assertExportStorage_held (hres : db.reservations ≠ []) (hnext : next.id = id)
    (h : assertExportStorage env db id next = .ok u)
    (held : Held db (Clear env db none) (Apart env db.reservations)) :
    Held db (Clear env db (some next)) (Apart env db.reservations) := by
  unfold assertExportStorage at h
  simp only [bind_eq_ok] at h
  obtain ⟨_, hplans, _, hbackups, _, hremote, _, hretained, _, hdestinations, _, hjobs, _,
      hsettings, hmirrors⟩ := h
  -- A row that names another storage resolves as before.
  have hother : ∀ reference, Clear env db none reference → reference.storageId ≠ some id →
      Clear env db (some next) reference := by
    intro reference hclear hne
    have hsame : referenceScope env db reference (some next) =
        referenceScope env db reference none := by
      apply referenceScope_congr
      intro name hname
      apply storageFor_of_ne
      rintro rfl
      rw [hnext] at hname
      exact hne (Option.filter_eq_some_iff.mp hname).1
    unfold Clear ClearOf
    rw [hsame]
    exact hclear
  have heither : ∀ (references : List Reference) (u : Unit),
      assertNaming env db id next references = .ok u →
      ∀ reference ∈ references, Clear env db none reference →
        Clear env db (some next) reference := by
    intro references u hnaming reference hmem hclear
    by_cases hid : reference.storageId = some id
    · exact assertNaming_clear hnaming reference hmem hid
    · exact hother reference hclear hid
  refine { plans := ?_, backups := ?_, remote := ?_, retained := ?_,
           destinations := ?_, sources := ?_,
           targets := ?_, settings := ?_, bound := held.bound }
  · intro row hrow
    exact assertExportPlanScope_clear hres (forM_eq_ok.mp hplans row hrow)
  · intro row hrow
    exact assertExportBackupScope_clear hres (forM_eq_ok.mp hmirrors row hrow)
  · intro row hrow
    exact heither _ _ hremote _ (List.mem_map_of_mem hrow) (held.remote row hrow)
  · intro row hrow
    exact heither _ _ hretained _ (List.mem_map_of_mem hrow) (held.retained row hrow)
  · intro row hrow
    exact heither _ _ hdestinations _ (List.mem_map_of_mem hrow) (held.destinations row hrow)
  · intro row hrow
    exact heither _ _ (forM_eq_ok.mp hjobs row hrow) _ (by simp) (held.sources row hrow)
  · intro row hrow
    exact heither _ _ (forM_eq_ok.mp hjobs row hrow) _ (by simp) (held.targets row hrow)
  · intro row hrow
    exact assertExportSettingsScope_clear hres (forM_eq_ok.mp hsettings row hrow)

end Pluton.Namespaces
