-- SUMMARY: Registered scopes stay apart from the reservations, if unguarded writes are clear.
import Pluton.Namespaces.Checks
import Pluton.Namespaces.Location
import Pluton.Run

/-!
# Isolation

Between any two calls, once there is a reservation, every row resolves to a scope apart
from all of them. A write keeps this when the row it leaves is the row its check saw.
Four kinds of write leave another one, or make no check at all: `Op.Guarded` says of
these that the row they leave passes the check all the same.
-/
namespace Pluton.Namespaces

open Except

/-! ## The condition -/

/-- The check reads a location of the backup as missing that the write leaves in place. -/
def BackupUpdate.dropsLocation (updates : BackupUpdate) : Bool :=
  updates.storageId.isUndefined || updates.storagePath.isUndefined

/-- The check reads some column of the storage as missing that the write leaves in place. -/
def StorageUpdate.dropsColumn (updates : StorageUpdate) : Bool :=
  updates.id.isUndefined || updates.name.isUndefined || updates.type.isUndefined ||
    updates.defaultPath.isUndefined || updates.settings.isUndefined ||
    updates.credentials.isUndefined

/-- The row a call leaves passes the check that the call does not make of it. -/
def Op.Guarded (env : Env) (db : Database) : Op → Prop
  -- An explicit null path is written, but checked as the path before.
  | updatePlan id updates => updates.storagePath = .value none → ∀ row ∈ db.plans, row.id = id →
      assertExportPlanScope env db (row.set updates).data none = .ok ()
  | updateBackup id updates => updates.dropsLocation = true → ∀ row ∈ db.backups, row.id = id →
      assertExportBackupScope env db (row.set updates).data none = .ok ()
  | updateStorage id updates => db.reservations ≠ [] → ∀ row, db.storage id = some row →
      (row.set updates).id = id ∧ (updates.dropsColumn = true →
        assertExportStorage env db id (row.set updates) = .ok ())
  -- The binding is checked by the location it states, and not by the storage it names.
  | reserveDestination binding =>
      db.reservations ≠ [] → assertReference env db none binding.reference = .ok ()
  -- Neither write of the managed repositories makes a check.
  | createRepository data =>
      db.reservations ≠ [] → assertReference env db none data.reference = .ok ()
  | createBackupAndCommand backup _ => assertExportBackupScope env db backup.data none = .ok ()
  | _ => True

/-! ## The invariant -/

/-- The primary keys of the tables whose rows are updated. -/
structure Keyed (db : Database) : Prop where
  plans : (db.plans.map Plan.id).Nodup
  backups : (db.backups.map Backup.id).Nodup
  storages : (db.storages.map Storage.id).Nodup

/-- Once there is a reservation, every row is clear of all of them. -/
def Isolated (env : Env) (db : Database) : Prop :=
  db.reservations ≠ [] → Held db (Clear env db none) (Apart env db.reservations)

variable {env : Env} {db next : Database} {id : String} {updates : StorageUpdate}

theorem Isolated.exclusive (h : Isolated env db) : Exclusive env db := by
  intro scope hscope reserved hreserved
  have held := h (List.ne_nil_of_mem hreserved)
  have hapart : Apart env db.reservations scope := by
    unfold Database.registeredScopes at hscope
    rcases List.mem_append.mp hscope with href | hdest
    · obtain ⟨reference, hmem, hof⟩ := List.mem_filterMap.mp href
      obtain ⟨owned, howned, hclear⟩ := held.of_mem hmem
      unfold Database.scopeOf at hof
      rw [howned] at hof
      exact hclear scope hof
    · obtain ⟨row, hrow, rfl⟩ := List.mem_map.mp hdest
      exact held.bound row hrow
  rw [hapart reserved hreserved]
  exact fun h => by cases h

/-- Exports and repositories in one bucket never own the same key. -/
theorem Exclusive.keys_apart {scope reserved : Scope} {bucket key : String} (h : Exclusive env db)
    (hscope : scope ∈ db.registeredScopes env) (hreserved : reserved ∈ db.reservations)
    (hscope' : env.pathname scope.authority = some bucket)
    (hreserved' : env.pathname reserved.authority = some bucket)
    (hkey : Covers reserved.keyPrefix key) :
    ¬ Covers scope.keyPrefix key := by
  intro hown
  apply h scope hscope reserved hreserved
  rw [namespaceScopesOverlap_eq_true]
  exact ⟨bucket, hreserved', hscope', prefixesNest_of_covers hkey hown⟩

/-! ## Inserts and updates -/

/-- A property of the old rows and of the new one is one of all rows. -/
theorem forall_append_singleton {ρ : Type} {rows : List ρ} {row : ρ} {P : ρ → Prop}
    (h : ∀ old ∈ rows, P old) (hrow : P row) : ∀ old ∈ rows ++ [row], P old := by
  intro old hold
  rcases List.mem_append.mp hold with hrows | hnew
  · exact h old hrows
  · rw [List.mem_singleton.mp hnew]
    exact hrow

/-- A property of the old rows and of what an update makes of the row it finds is one of
all rows. -/
theorem forall_update {ρ : Type} {key : ρ → String} {rows : List ρ} {set : ρ → ρ} {P : ρ → Prop}
    (hnodup : (rows.map key).Nodup) (h : ∀ old ∈ rows, P old)
    (hset : ∀ old, rows.find? (fun row => key row == id) = some old → old ∈ rows →
      key old = id → P (set old)) :
    ∀ row ∈ Table.update rows (fun row => key row == id) set, P row := by
  intro row hrow
  obtain ⟨old, hold, rfl⟩ := Table.mem_update.mp hrow
  by_cases hid : key old = id
  · subst hid
    rw [if_pos (by simp)]
    exact hset old (Table.find?_key hnodup hold) hold rfl
  · rw [if_neg (by simpa using hid)]
    exact h old hold

/-! ## Plans -/

theorem Plan.data_references (plan : Plan) : plan.data.references = plan.references := by
  simp [Plan.data, PlanObject.references, Plan.references]

theorem PlanStore.create_isolated {plan : Plan} (h : PlanStore.create env db plan = .ok next)
    (hiso : Isolated env db) : Isolated env next := by
  obtain ⟨hscope, -, rfl⟩ := PlanStore.create_cases h
  intro hres
  have held := hiso hres
  have hplan := assertExportPlanScope_clear hres hscope
  rw [Plan.data_references] at hplan
  exact { held with plans := forall_append_singleton held.plans hplan }

/-- The check of an update and the rows before it cover the row after it. -/
theorem Plan.set_clear {row : Plan} {updates : PlanUpdate} {P : Reference → Prop}
    (hpath : updates.storagePath ≠ .value none)
    (hcheck : ∀ reference ∈ (row.spread updates).references, P reference)
    (hold : ∀ reference ∈ row.references, P reference) :
    ∀ reference ∈ (row.set updates).references, P reference := by
  obtain ⟨hprimary, hreplicas⟩ := List.forall_mem_cons.mp hcheck
  refine List.forall_mem_cons.mpr ⟨?_, ?_⟩
  · have hstorage :
        (row.spread updates).storageId.or (row.spread updates).storage_id = row.storageId := by
      simp [Plan.spread]
    have hsame : (row.spread updates).storagePath.or (row.spread updates).storage_path =
        (row.set updates).storagePath := by
      unfold Plan.spread Plan.set
      cases hupdate : updates.storagePath with
      | absent => simp [Patch.spread, Patch.set]
      | undefined => simp [Patch.spread, Patch.set]
      | value path =>
          cases path with
          | none => exact absurd hupdate hpath
          | some path => simp [Patch.spread, Patch.set]
    rw [hstorage, hsame] at hprimary
    exact hprimary
  · unfold Plan.spread at hreplicas
    unfold Plan.set
    cases hupdate : updates.replicas with
    | absent => simpa [hupdate, Patch.spread, Patch.set] using hreplicas
    | undefined => exact (List.forall_mem_cons.mp hold).2
    | value replicas => simpa [hupdate, Patch.spread, Patch.set] using hreplicas

theorem PlanStore.update_isolated {updates : PlanUpdate}
    (h : PlanStore.update env db id updates = .ok next)
    (hguard : (Op.updatePlan id updates).Guarded env db) (hkeyed : Keyed db)
    (hiso : Isolated env db) : Isolated env next := by
  obtain ⟨hscope, rfl⟩ := PlanStore.update_cases h
  intro hres
  have held := hiso hres
  refine { held with plans := forall_update hkeyed.plans held.plans ?_ }
  intro row hfind hrow hid
  by_cases hpath : updates.storagePath = .value none
  · have hclear := assertExportPlanScope_clear hres (hguard hpath row hrow hid)
    rw [Plan.data_references] at hclear
    exact hclear
  · unfold assertExportPlanUpdate at hscope
    rw [if_neg (by simpa using hres), hfind] at hscope
    exact Plan.set_clear hpath (assertExportPlanScope_clear hres hscope) (held.plans row hrow)

/-- Removing a plan moves its repository to the retained ones and drops rows. -/
theorem PlanStore.delete_isolated {removeHistory : Bool}
    (h : PlanStore.delete env db id removeHistory = .ok next) (hiso : Isolated env db) :
    Isolated env next := by
  obtain ⟨escrow, hescrow, plans, hplans, backups, hbackups, remote, hremote, rfl⟩ :=
    PlanStore.delete_cases h
  intro hres
  have held := hiso hres
  refine { held with
           plans := fun row hrow => held.plans row (hplans.subset hrow)
           backups := fun row hrow => held.backups row (hbackups.subset hrow)
           remote := fun row hrow => held.remote row (hremote.subset hrow)
           retained := ?_ }
  intro row hrow
  rcases List.mem_append.mp hrow with hold | hmoved
  · exact held.retained row hold
  · exact held.remote row (hescrow hmoved)

/-! ## Backups -/

theorem Backup.data_references (backup : Backup) : backup.data.references = backup.references := by
  simp [Backup.data, BackupObject.references, Backup.references]

theorem insertBackup_held {backup : Backup} {u : Unit} (hres : db.reservations ≠ [])
    (hscope : assertExportBackupScope env db backup.data none = .ok u)
    (hold : ∀ row ∈ db.backups, ∀ reference ∈ row.references, Clear env db none reference) :
    ∀ row ∈ db.backups ++ [backup], ∀ reference ∈ row.references, Clear env db none reference := by
  have hbackup := assertExportBackupScope_clear hres hscope
  rw [Backup.data_references] at hbackup
  exact forall_append_singleton hold hbackup

theorem BackupStore.create_isolated {backup : Backup}
    (h : BackupStore.create env db backup = .ok next) (hiso : Isolated env db) :
    Isolated env next := by
  obtain ⟨hscope, -, rfl⟩ := BackupStore.create_cases h
  intro hres
  have held := hiso hres
  exact { held with backups := insertBackup_held hres hscope held.backups }

theorem Backup.set_clear {row : Backup} {updates : BackupUpdate} {P : Reference → Prop}
    (hdrops : updates.dropsLocation = false)
    (hcheck : ∀ reference ∈ (row.spread updates).references, P reference)
    (hold : ∀ reference ∈ row.references, P reference) :
    ∀ reference ∈ (row.set updates).references, P reference := by
  obtain ⟨hprimary, hmirrors⟩ := List.forall_mem_cons.mp hcheck
  obtain ⟨hid, hpath⟩ := Bool.or_eq_false_iff.mp hdrops
  refine List.forall_mem_cons.mpr ⟨?_, ?_⟩
  · have hstorage : (row.spread updates).storageId.or (row.spread updates).storage_id =
        (row.set updates).storageId := by
      simp [Backup.spread, Backup.set, Patch.spread_of_defined hid]
    have hsame : (row.spread updates).storagePath.or (row.spread updates).storage_path =
        (row.set updates).storagePath := by
      simp [Backup.spread, Backup.set, Patch.spread_of_defined hpath]
    rw [hstorage, hsame] at hprimary
    exact hprimary
  · unfold Backup.spread at hmirrors
    unfold Backup.set
    cases hupdate : updates.mirrors with
    | absent => simpa [hupdate, Patch.spread, Patch.set] using hmirrors
    | undefined => exact (List.forall_mem_cons.mp hold).2
    | value mirrors => simpa [hupdate, Patch.spread, Patch.set] using hmirrors

theorem BackupStore.update_isolated {updates : BackupUpdate}
    (h : BackupStore.update env db id updates = .ok next)
    (hguard : (Op.updateBackup id updates).Guarded env db) (hkeyed : Keyed db)
    (hiso : Isolated env db) : Isolated env next := by
  obtain ⟨hscope, rfl⟩ := BackupStore.update_cases h
  intro hres
  have held := hiso hres
  refine { held with backups := forall_update hkeyed.backups held.backups ?_ }
  intro row hfind hrow hid
  cases hdrops : updates.dropsLocation with
  | true =>
      have hclear := assertExportBackupScope_clear hres (hguard hdrops row hrow hid)
      rw [Backup.data_references] at hclear
      exact hclear
  | false =>
      unfold assertBackupUpdate at hscope
      rw [if_neg (by simpa using hres), hfind] at hscope
      exact Backup.set_clear hdrops (assertExportBackupScope_clear hres hscope)
        (held.backups row hrow)

theorem RemoteManagedRepositoryStore.createBackupAndCommand_isolated {backup : Backup}
    {command : AgentCommand}
    (h : RemoteManagedRepositoryStore.createBackupAndCommand db backup command = .ok next)
    (hguard : (Op.createBackupAndCommand backup command).Guarded env db) (hiso : Isolated env db) :
    Isolated env next := by
  obtain ⟨agentCommands, -, rfl⟩ := createBackupAndCommand_cases h
  intro hres
  have held := hiso hres
  exact { held with backups := insertBackup_held hres hguard held.backups }

/-! ## Settings, destinations and managed repositories -/

theorem SettingsStore.create_isolated {row : SettingsRow}
    (h : SettingsStore.create env db row = .ok next) (hiso : Isolated env db) :
    Isolated env next := by
  obtain ⟨hscope, rfl⟩ := SettingsStore.create_cases h
  intro hres
  have held := hiso hres
  have hrow := assertExportSettingsScope_clear hres hscope
  exact { held with settings := forall_append_singleton held.settings hrow }

theorem SettingsStore.update_isolated {id : Nat} {selfBackup : Option SelfBackup}
    (h : SettingsStore.update env db id selfBackup = .ok next) (hiso : Isolated env db) :
    Isolated env next := by
  obtain ⟨hscope, rfl⟩ := SettingsStore.update_cases h
  intro hres
  have held := hiso hres
  refine { held with settings := ?_ }
  intro row hrow
  obtain ⟨old, hold, rfl⟩ := Table.mem_update.mp hrow
  by_cases hid : (old.id == id) = true
  · rw [if_pos hid]
    -- Every row the update reaches has the checked settings, whatever it had before.
    let row : SettingsRow := { old with selfBackup }
    have hrow : ∀ reference ∈ row.references, Clear env db none reference :=
      assertExportSettingsScope_clear hres hscope
    exact hrow
  · rw [if_neg hid]
    exact held.settings old hold

theorem ManagedReplicationStore.reserveDestination_isolated {binding : Destination}
    (h : ManagedReplicationStore.reserveDestination env db binding = .ok next)
    (hguard : (Op.reserveDestination binding).Guarded env db) (hiso : Isolated env db) :
    Isolated env next := by
  obtain ⟨hscope, rfl | rfl⟩ := reserveDestination_cases h
  · exact hiso
  · intro hres
    have held := hiso hres
    have hreference : Clear env db none binding.reference := assertReference_eq_ok.mp (hguard hres)
    have hbound : Apart env db.reservations binding.scope :=
      assertExportRepositoryScope_eq_ok.mp hscope
    exact { held with
            destinations := forall_append_singleton held.destinations hreference
            bound := forall_append_singleton held.bound hbound }

theorem RemoteManagedRepositoryStore.create_isolated {data : Repository}
    (h : RemoteManagedRepositoryStore.create db data = .ok next)
    (hguard : (Op.createRepository data).Guarded env db) (hiso : Isolated env db) :
    Isolated env next := by
  obtain rfl := createRepository_cases h
  intro hres
  have held := hiso hres
  have hdata : Clear env db none data.reference := assertReference_eq_ok.mp (hguard hres)
  exact { held with remote := forall_append_singleton held.remote hdata }

/-! ## Storages -/

theorem storage_append {storage : Storage} {found : Storage} (h : db.storage id = some found) :
    ({ db with storages := db.storages ++ [storage] } : Database).storage id = some found := by
  unfold Database.storage at h ⊢
  rw [List.find?_append, h]
  rfl

theorem StorageStore.create_isolated {storage : Storage}
    (h : StorageStore.create env db storage = .ok next) (hiso : Isolated env db) :
    Isolated env next := by
  obtain ⟨-, rfl⟩ := StorageStore.create_cases h
  intro hres
  have held := hiso hres
  -- No row waited for this storage: the one it names was found before.
  have hkept : ∀ reference, Clear env db none reference →
      Clear env { db with storages := db.storages ++ [storage] } none reference := by
    intro reference hclear
    have hsame :
        referenceScope env { db with storages := db.storages ++ [storage] } reference none =
        referenceScope env db reference none := by
      apply referenceScope_congr
      intro id hid
      obtain ⟨found, hfound⟩ := hclear.storage hid
      rw [hfound]
      exact storage_append hfound
    unfold Clear ClearOf
    rw [hsame]
    exact hclear
  exact { held.imp hkept (fun _ h => h) with }

theorem Storage.spread_eq_set {row : Storage} (h : updates.dropsColumn = false) :
    row.spread updates = row.set updates := by
  unfold StorageUpdate.dropsColumn at h
  simp only [Bool.or_eq_false_iff] at h
  obtain ⟨⟨⟨⟨⟨hid, hname⟩, htype⟩, hpath⟩, hsettings⟩, hcredentials⟩ := h
  unfold Storage.spread Storage.set
  rw [Patch.spread_of_defined hid, Patch.spread_of_defined hname, Patch.spread_of_defined htype,
    Patch.spread_of_defined hpath, Patch.spread_of_defined hsettings,
    Patch.spread_of_defined hcredentials]
  rfl

/-- A lookup after an update that keeps the key finds the updated row in place of the row
it found before. -/
theorem storageFor_update {row : Storage} (hrow : db.storage id = some row)
    (hid : (row.set updates).id = id) (name : String) :
    storageFor { db with
      storages :=
        Table.update db.storages (fun row => row.id == id) fun row => row.set updates } none name =
    storageFor db (some (row.set updates)) name := by
  have hrowid : row.id = id := by simpa using List.find?_some hrow
  have hkeep : ∀ other : Storage,
      (if other.id == id then other.set updates else other).id = other.id := by
    intro other
    by_cases hother : other.id = id
    · rw [if_pos (by simpa using hother), hother, ← hid]
      unfold Storage.set
      rw [hother, hrowid]
    · rw [if_neg (by simpa using hother)]
  have hfind : storageFor { db with
      storages :=
        Table.update db.storages (fun row => row.id == id) fun row => row.set updates } none name =
      (db.storage name).map fun other => if other.id == id then other.set updates else other := by
    change (Table.update db.storages _ _).find? _ = (db.storages.find? _).map _
    unfold Table.update
    rw [List.find?_map]
    congr 2
    funext other
    simp only [Function.comp_apply, hkeep]
  rw [hfind]
  by_cases hname : name = id
  · subst hname
    have hself : storageFor db (some (row.set updates)) (row.set updates).id =
        some (row.set updates) :=
      storageFor_self
    rw [hid] at hself
    rw [hself, hrow, Option.map_some, if_pos (by simpa using hrowid)]
  · rw [storageFor_of_ne (by rw [hid]; exact Ne.symm hname)]
    change _ = db.storage name
    cases hother : db.storage name with
    | none => rfl
    | some other =>
        have hne : other.id = name := by simpa using List.find?_some hother
        rw [Option.map_some, if_neg (by simpa [hne] using hname)]

theorem StorageStore.update_isolated (h : StorageStore.update env db id updates = .ok next)
    (hguard : (Op.updateStorage id updates).Guarded env db) (hiso : Isolated env db) :
    Isolated env next := by
  obtain ⟨hscope, -, rfl⟩ := StorageStore.update_cases h
  intro (hres : db.reservations ≠ [])
  have held := hiso hres
  cases hrow : db.storage id with
  | none =>
      have hsame : Table.update db.storages (fun row => row.id == id)
          (fun row => row.set updates) = db.storages :=
        Table.update_eq_self fun row hmem => by simpa using List.find?_eq_none.mp hrow row hmem
      rw [hsame]
      exact held
  | some row =>
      obtain ⟨hid, hdropped⟩ := hguard hres row hrow
      have hchecked : assertExportStorage env db id (row.set updates) = .ok () := by
        cases hdrops : updates.dropsColumn with
        | true => exact hdropped hdrops
        | false =>
            unfold assertExportStorageUpdate at hscope
            rw [if_neg (by simpa using hres), hrow] at hscope
            rw [← Storage.spread_eq_set hdrops]
            exact hscope
      have hedited := assertExportStorage_held hres hid hchecked held
      -- What was checked with the edited storage is what the rows resolve to after the write.
      have hkept : ∀ reference, Clear env db (some (row.set updates)) reference →
          Clear env { db with
            storages :=
              Table.update db.storages (fun row => row.id == id) fun row => row.set updates }
            none reference := by
        intro reference hclear
        have hsame : referenceScope env { db with
            storages :=
              Table.update db.storages (fun row => row.id == id) fun row => row.set updates }
            reference none = referenceScope env db reference (some (row.set updates)) :=
          referenceScope_congr fun name _ => storageFor_update hrow hid name
        unfold Clear ClearOf
        rw [hsame]
        exact hclear
      exact { hedited.imp hkept (fun _ h => h) with }

/-! ## Reservations and edits -/

theorem reserveExportNamespace_isolated {config : ExportConfig}
    (h : reserveExportNamespace env db config = .ok next) (hiso : Isolated env db) :
    Isolated env next := by
  obtain ⟨selected, rfl, hselected⟩ := reserveExportNamespace_cases h
  unfold Database.reserve
  split
  · exact hiso
  · intro _
    have hold : Held db (ClearOf env db none db.reservations) (Apart env db.reservations) := by
      by_cases hres : db.reservations = []
      · -- The first reservation: the rows are resolved, and there is nothing to be apart from.
        rw [hres]
        refine hselected.imp (fun reference hclear => ?_) fun scope _ => by simp [Apart]
        obtain ⟨scope, hscope, -⟩ := hclear
        exact ⟨scope, hscope, by simp [Apart]⟩
      · exact hiso hres
    have hboth :=
      (hold.and hselected).imp (fun _ h => h.1.append h.2) fun _ h => List.forall_mem_append.mpr h
    exact { hboth with }

/-! ## Keys -/

theorem Keyed.run {op : Op} (h : op.run env db = .ok next) (hkeyed : Keyed db) : Keyed next := by
  cases op with
  | initializeExportNamespaceReservations =>
      cases h
      exact { hkeyed with }
  | createPlan plan =>
      obtain ⟨-, hfresh, rfl⟩ := PlanStore.create_cases h
      exact { hkeyed with plans := nodup_append_key hkeyed.plans hfresh }
  | updatePlan id updates =>
      obtain ⟨-, rfl⟩ := PlanStore.update_cases h
      exact { hkeyed with plans := Table.nodup_update (fun _ => rfl) hkeyed.plans }
  | deletePlan id removeHistory =>
      obtain ⟨escrow, -, plans, hplans, backups, hbackups, remote, -, rfl⟩ :=
        PlanStore.delete_cases h
      -- Deletions leave a sublist of each table, which keeps its keys distinct.
      exact { hkeyed with
              plans := hkeyed.plans.sublist (hplans.map Plan.id)
              backups := hkeyed.backups.sublist (hbackups.map Backup.id) }
  | createStorage storage =>
      obtain ⟨hfresh, rfl⟩ := StorageStore.create_cases h
      exact { hkeyed with storages := nodup_append_key hkeyed.storages hfresh }
  | updateStorage id updates =>
      obtain ⟨-, hnodup, rfl⟩ := StorageStore.update_cases h
      exact { hkeyed with storages := hnodup }
  | createBackup backup =>
      obtain ⟨-, hfresh, rfl⟩ := BackupStore.create_cases h
      exact { hkeyed with backups := nodup_append_key hkeyed.backups hfresh }
  | updateBackup id updates =>
      obtain ⟨-, rfl⟩ := BackupStore.update_cases h
      exact { hkeyed with backups := Table.nodup_update (fun _ => rfl) hkeyed.backups }
  | createSettings row =>
      obtain ⟨-, rfl⟩ := SettingsStore.create_cases h
      exact { hkeyed with }
  | updateSettings id selfBackup =>
      obtain ⟨-, rfl⟩ := SettingsStore.update_cases h
      exact { hkeyed with }
  | reserveDestination binding =>
      -- A binding reserved before changes nothing; a new one is in none of these tables.
      obtain ⟨-, rfl | rfl⟩ := reserveDestination_cases h
      · exact hkeyed
      · exact { hkeyed with }
  | createRepository data =>
      obtain rfl := createRepository_cases h
      exact { hkeyed with }
  | createBackupAndCommand backup command =>
      obtain ⟨agentCommands, hfresh, rfl⟩ := createBackupAndCommand_cases h
      exact { hkeyed with backups := nodup_append_key hkeyed.backups hfresh }
  | reserveExportNamespace config =>
      obtain ⟨selected, rfl, -⟩ := reserveExportNamespace_cases h
      unfold Database.reserve
      split
      · exact hkeyed
      · exact { hkeyed with }
  | beginExportStorageEdit id storage =>
      obtain ⟨edits, rfl⟩ := beginExportStorageEdit_cases h
      exact { hkeyed with }
  | completeExportStorageEdit id =>
      cases h
      exact { hkeyed with }

/-! ## Runs -/

theorem Isolated.run {op : Op} (h : op.run env db = .ok next) (hguard : op.Guarded env db)
    (hkeyed : Keyed db) (hiso : Isolated env db) : Isolated env next := by
  cases op with
  | initializeExportNamespaceReservations =>
      cases h
      exact fun hres => { hiso hres with }
  | createPlan plan => exact PlanStore.create_isolated h hiso
  | updatePlan id updates => exact PlanStore.update_isolated h hguard hkeyed hiso
  | deletePlan id removeHistory => exact PlanStore.delete_isolated h hiso
  | createStorage storage => exact StorageStore.create_isolated h hiso
  | updateStorage id updates => exact StorageStore.update_isolated h hguard hiso
  | createBackup backup => exact BackupStore.create_isolated h hiso
  | updateBackup id updates => exact BackupStore.update_isolated h hguard hkeyed hiso
  | createSettings row => exact SettingsStore.create_isolated h hiso
  | updateSettings id selfBackup => exact SettingsStore.update_isolated h hiso
  | reserveDestination binding =>
      exact ManagedReplicationStore.reserveDestination_isolated h hguard hiso
  | createRepository data => exact RemoteManagedRepositoryStore.create_isolated h hguard hiso
  | createBackupAndCommand backup command =>
      exact RemoteManagedRepositoryStore.createBackupAndCommand_isolated h hguard hiso
  | reserveExportNamespace config => exact reserveExportNamespace_isolated h hiso
  | beginExportStorageEdit id storage =>
      obtain ⟨edits, rfl⟩ := beginExportStorageEdit_cases h
      exact fun hres => { hiso hres with }
  | completeExportStorageEdit id =>
      cases h
      exact fun hres => { hiso hres with }

theorem step_invariant {op : Op} (hguard : op.Guarded env db) (h : Keyed db ∧ Isolated env db) :
    Keyed (step env db op) ∧ Isolated env (step env db op) := by
  unfold step
  cases hrun : op.run env db with
  | error failure => exact h
  | ok next => exact ⟨h.1.run hrun, h.2.run hrun hguard h.1⟩

/-- In every state of a run whose unguarded writes leave rows that pass the check, no
registered scope overlaps a reservation. -/
theorem registered_scopes_exclusive (env : Env) (ops : List Op)
    (h : Run.Along (step env) (Op.Guarded env) .empty ops) (reached : Nat) :
    Exclusive env (after env (ops.take reached)) := by
  rw [← List.take_append_drop reached ops, Run.along_append] at h
  have hempty : Keyed .empty ∧ Isolated env .empty :=
    ⟨⟨List.nodup_nil, List.nodup_nil, List.nodup_nil⟩, fun hres => absurd rfl hres⟩
  have hinv := @Run.Along.invariant _ _ _ _ _ _ (fun db => Keyed db ∧ Isolated env db)
    (fun _ _ hguard hinv => step_invariant hguard hinv) h.1 hempty
  exact hinv.2.exclusive

/-! ## A run on one bucket -/

/-- A text that is a scheme, a host and a path. -/
def plainUrl (text : String) : Option StorageSecurity.Url :=
  if Js.startsWith "https://" text then
    let rest := text.toList.drop 8
    let path := rest.dropWhile (· != '/')
    some { protocol := "https:", username := "", password := "", port := "",
           search := "", hash := "",
           hostname := String.ofList (rest.takeWhile (· != '/')),
           pathname := if path.isEmpty then "/" else String.ofList path }
  else none

def plainRuntime : StorageSecurity.Runtime where
  parse := plainUrl
  decrypt := some
  s3Providers := ["s3", "s3compatible"]
  toLowerCase := String.map Char.toLower

/-- The replica checks of a database without a replication destination. -/
def noReplicas : ReplicaPolicy where
  assertPlanReplicaIsolation _ _ := .ok ()
  assertPlanUpdateReplicaIsolation _ _ _ := .ok ()
  assertStorageUpdateReplicaIsolation _ _ _ := .ok ()
  assertReplicaNotPlanOwned _ _ _ := .ok ()
  assertPlanRemoval _ _ := .ok ()

def plainEnv : Env where
  pathname text := (plainUrl text).map StorageSecurity.Url.pathname
  toLowerCase := String.map Char.toLower
  security := some plainRuntime.security
  policy := noReplicas

/-- A storage on the bucket `backups`, a plan on it, a reservation of `exports` in the
same bucket, and the managed repository of the plan at the given path. -/
def repositoryRun (storagePath : String) : List Op :=
  [.initializeExportNamespaceReservations,
    .createStorage ⟨"s1", "Primary", some "s3", some "/", [("region", "eu-west-1")],
      [("bucket", "backups")]⟩,
    .createPlan ⟨"p1", some "s1", some "backups/plans/p1", []⟩,
    .reserveExportNamespace ⟨"https://s3.amazonaws.com", "backups", "exports"⟩,
    .createRepository ⟨"r1", "p1", "a1", "s1", storagePath⟩]

/-- The database that the managed repository is written to. -/
def reservedDatabase : Database :=
  { Database.empty with
    initialized := true
    reservations := [⟨"https://s3.amazonaws.com/backups", "exports"⟩]
    storages :=
      [⟨"s1", "Primary", some "s3", some "/", [("region", "eu-west-1")], [("bucket", "backups")]⟩]
    plans := [⟨"p1", some "s1", some "backups/plans/p1", []⟩] }

/-! ## What the run evaluates to

Every location of the run is on one storage and in one bucket, so the texts are parsed
once and the calls are followed from there. -/

deriving instance DecidableEq for StorageSecurity.Url

def sampleStorage : Storage :=
  ⟨"s1", "Primary", some "s3", some "/", [("region", "eu-west-1")], [("bucket", "backups")]⟩

def sampleCredentials : Fields := [("bucket", "backups")]

def samplePlan : Plan := ⟨"p1", some "s1", some "backups/plans/p1", []⟩

def sampleEndpoint (hostname : String) : StorageSecurity.Url :=
  { protocol := "https:", username := "", password := "", hostname, port := "",
    pathname := "/", search := "",
    hash := "" }

def regionEndpoint : StorageSecurity.Url := sampleEndpoint "s3.eu-west-1.amazonaws.com"

/-- The authority of every location. -/
def sampleAuthority : String := "https://s3.amazonaws.com/backups"

/-- The database before the plan. -/
def storedDatabase : Database :=
  { Database.empty with initialized := true, storages := [sampleStorage] }

/-- The database before the reservation. -/
def plannedDatabase : Database := { storedDatabase with plans := [samplePlan] }

/-- A path on the sample storage is `keyPrefix` in the bucket. -/
structure LocatedAt (path part : String) (parts : List String) (keyPrefix : String) : Prop where
  split : Js.split '/' (stripSlashes path) = "backups" :: part :: parts
  valid : (part :: parts).any StorageSecurity.invalidPart = false
  joined : "/".intercalate (part :: parts) = keyPrefix

/-- The path is used as it is, and not the bucket in its place. -/
structure UsedAt (path : String) : Prop where
  used : (StorageSecurity.scopePath sampleCredentials (some path)).getD "undefined" = path
  slash : Js.includes '/' path = true

/-- What the texts of the run are parsed to. -/
structure SampleTexts : Prop where
  bucket : StorageSecurity.validBucket "backups" = true
  origin : (sampleEndpoint "s3.amazonaws.com").origin ++ "/" ++ "backups" = sampleAuthority
  pathname : plainEnv.pathname sampleAuthority = some "/backups"
  named : (sampleCredentials.lookup "bucket").getD "" = "backups"
  credentials : decryptStorageCredentials plainEnv sampleStorage = .ok sampleCredentials
  s3 : isS3Storage plainEnv (some "s3") = .ok true
  type : StorageSecurity.isS3Storage plainRuntime sampleStorage.type = true
  region : StorageSecurity.s3Endpoint plainRuntime sampleStorage sampleCredentials =
    .ok regionEndpoint
  endpoint : StorageSecurity.httpsS3Endpoint plainRuntime "https://s3.amazonaws.com" =
    .ok (sampleEndpoint "s3.amazonaws.com")
  host : StorageSecurity.canonicalHost "backups" "s3.amazonaws.com" = "s3.amazonaws.com"
  regionHost : StorageSecurity.canonicalHost "backups" "s3.eu-west-1.amazonaws.com" =
    "s3.amazonaws.com"
  remote : (remoteName plainEnv "Primary").isEmpty = false
  id : truthy (some "s1") = some "s1"
  defaultPath : truthy (some "/") = some "/"
  below : (some (stripSlashes "/") == sampleCredentials.lookup "bucket") = false
  placeholder : LocatedAt "backups/scope-placeholder" "scope-placeholder" [] "scope-placeholder"
  placeholderUsed : UsedAt (scopePlaceholder sampleCredentials)
  root : (StorageSecurity.scopePath sampleCredentials (some "/")).getD "undefined" = "backups"
  rootSlash : Js.includes '/' "backups" = false
  plan : LocatedAt "backups/plans/p1" "plans" ["p1"] "plans/p1"
  planUsed : UsedAt "backups/plans/p1"
  exported : LocatedAt "backups/exports/p1" "exports" ["p1"] "exports/p1"
  exportedUsed : UsedAt "backups/exports/p1"
  reserved : LocatedAt ("backups" ++ "/" ++ "exports") "exports" [] "exports"
  apart : prefixesNest "exports" "plans/p1" = false
  nested : prefixesNest "exports" "exports/p1" = true

theorem sampleTexts : SampleTexts where
  bucket := by decide +kernel
  origin := by decide +kernel
  pathname := by decide +kernel
  named := by decide +kernel
  credentials := by decide +kernel
  s3 := by decide +kernel
  type := by decide +kernel
  region := by decide +kernel
  endpoint := by decide +kernel
  host := by decide +kernel
  regionHost := by decide +kernel
  remote := by decide +kernel
  id := by decide +kernel
  defaultPath := by decide +kernel
  below := by decide +kernel
  placeholder := ⟨by decide +kernel, by decide +kernel, rfl⟩
  placeholderUsed := ⟨by decide +kernel, by decide +kernel⟩
  root := by decide +kernel
  rootSlash := by decide +kernel
  plan := ⟨by decide +kernel, by decide +kernel, by decide +kernel⟩
  planUsed := ⟨by decide +kernel, by decide +kernel⟩
  exported := ⟨by decide +kernel, by decide +kernel, by decide +kernel⟩
  exportedUsed := ⟨by decide +kernel, by decide +kernel⟩
  reserved := ⟨by decide +kernel, by decide +kernel, rfl⟩
  apart := by decide +kernel
  nested := by decide +kernel

theorem LocatedAt.locate {hostname path part keyPrefix : String} {parts : List String}
    (texts : SampleTexts) (h : LocatedAt path part parts keyPrefix)
    (hhost : StorageSecurity.canonicalHost "backups" hostname = "s3.amazonaws.com") :
    StorageSecurity.locate (sampleEndpoint hostname) "backups" path =
      .ok ⟨sampleAuthority, keyPrefix⟩ := by
  have hendpoint : { sampleEndpoint hostname with
      hostname := StorageSecurity.canonicalHost "backups" (sampleEndpoint hostname).hostname } =
        sampleEndpoint "s3.amazonaws.com" := by
    have hsame : (sampleEndpoint hostname).hostname = hostname := rfl
    rw [hsame, hhost]
    rfl
  unfold StorageSecurity.locate
  rw [texts.bucket, h.split]
  dsimp only
  rw [bne_self_eq_false, h.valid, h.joined, hendpoint, texts.origin]
  rfl

theorem plaintext_sample (texts : SampleTexts) :
    StorageSecurity.plaintextOf plainRuntime sampleStorage none = .ok sampleCredentials :=
  texts.credentials

/-- The scope of a path: below the bucket, or the whole of it for a path without a slash. -/
theorem s3RepositoryScope_sample {path : Option String} {plaintext : Option Fields}
    {keyPrefix : String} (texts : SampleTexts) (text : String) (slash : Bool)
    (hplain : StorageSecurity.plaintextOf plainRuntime sampleStorage plaintext =
      .ok sampleCredentials)
    (htext : (StorageSecurity.scopePath sampleCredentials path).getD "undefined" = text)
    (hslash : Js.includes '/' text = slash)
    (hlocate : StorageSecurity.locate regionEndpoint "backups"
      (if !slash then text ++ "/scope-placeholder" else text) = .ok ⟨sampleAuthority, keyPrefix⟩) :
    s3RepositoryScope plainEnv sampleStorage path plaintext =
      .ok ⟨sampleAuthority, if !slash then "" else keyPrefix⟩ := by
  have hscope : StorageSecurity.s3RepositoryScope plainRuntime sampleStorage path plaintext =
      .ok ⟨sampleAuthority, if !slash then "" else keyPrefix⟩ := by
    unfold StorageSecurity.s3RepositoryScope
    refine bind_eq_ok.mpr ⟨_, hplain, ?_⟩
    dsimp only
    rw [htext, hslash, texts.type, texts.named]
    exact bind_eq_ok.mpr ⟨(), rfl,
      bind_eq_ok.mpr ⟨_, texts.region, bind_eq_ok.mpr ⟨_, hlocate, rfl⟩⟩⟩
  unfold s3RepositoryScope
  exact bind_eq_ok.mpr ⟨plainRuntime.security, rfl, hscope⟩

/-- Before the first reservation only the location itself is checked. -/
theorem createStorage_sample (texts : SampleTexts) :
    StorageStore.create plainEnv { Database.empty with initialized := true } sampleStorage =
      .ok storedDatabase := by
  have hlocate : StorageSecurity.locate regionEndpoint "backups" "backups/scope-placeholder" =
      .ok ⟨sampleAuthority, "scope-placeholder"⟩ := texts.placeholder.locate texts texts.regionHost
  have hplaceholder :=
    s3RepositoryScope_sample texts _ true (plaintext_sample texts) texts.placeholderUsed.used
    texts.placeholderUsed.slash hlocate
  have hroot :=
    s3RepositoryScope_sample texts "backups" false
      (plaintext_sample texts) texts.root texts.rootSlash hlocate
  have hdefault :
      assertDefaultPath plainEnv { Database.empty with initialized := true } sampleStorage
      sampleCredentials = .ok () := by
    have htruthy : truthy sampleStorage.defaultPath = some "/" := texts.defaultPath
    unfold assertDefaultPath
    rw [htruthy]
    dsimp only
    rw [texts.below, if_neg Bool.false_ne_true]
    exact bind_eq_ok.mpr ⟨_, hroot, rfl⟩
  have hcheck : assertExportStorageCreation plainEnv
      { Database.empty with initialized := true } sampleStorage =
      .ok () := by
    have hname : (remoteName plainEnv sampleStorage.name).isEmpty = false := texts.remote
    unfold assertExportStorageCreation
    rw [if_neg (by simp)]
    dsimp only
    rw [hname]
    refine bind_eq_ok.mpr ⟨(), rfl, bind_eq_ok.mpr ⟨(), rfl, bind_eq_ok.mpr ⟨true, texts.s3, ?_⟩⟩⟩
    exact bind_eq_ok.mpr ⟨_, texts.credentials, bind_eq_ok.mpr ⟨_, hplaceholder, hdefault⟩⟩
  exact bind_eq_ok.mpr ⟨(), hcheck, rfl⟩

/-- What a reference to the sample storage resolves to. -/
theorem cachedReferenceScope_sample (texts : SampleTexts) (db : Database)
    {path part keyPrefix : String} {parts : List String}
    (hstorage : db.storage "s1" = some sampleStorage) (hused : UsedAt path)
    (hlocated : LocatedAt path part parts keyPrefix) :
    cachedReferenceScope plainEnv db ⟨some "s1", some path⟩ none [] =
      .ok (some ⟨sampleAuthority, keyPrefix⟩,
        Js.mapSet [] "s1" ⟨sampleStorage, some sampleCredentials, true⟩) := by
  have hresolve : resolve plainEnv sampleStorage = .ok ⟨sampleStorage,
      some sampleCredentials, true⟩ := by
    refine bind_eq_ok.mpr ⟨true, texts.s3, bind_eq_ok.mpr ⟨some sampleCredentials, ?_, rfl⟩⟩
    unfold storageCredentials
    rw [if_pos rfl, texts.credentials]
    rfl
  have hlookup : lookupResolution plainEnv db none "s1" =
      .ok ⟨sampleStorage, some sampleCredentials, true⟩ := by
    have hfor : storageFor db none "s1" = some sampleStorage := hstorage
    unfold lookupResolution
    rw [hfor]
    exact hresolve
  have hscope :
      (⟨sampleStorage, some sampleCredentials, true⟩ : Resolution).scope plainEnv (some path) =
      .ok (some ⟨sampleAuthority, keyPrefix⟩) := by
    unfold Resolution.scope
    rw [if_pos rfl, s3RepositoryScope_sample texts path true rfl hused.used hused.slash
      (hlocated.locate texts texts.regionHost)]
    rfl
  unfold cachedReferenceScope
  dsimp only
  rw [texts.id]
  dsimp only [List.lookup_nil]
  exact bind_eq_ok.mpr ⟨_, hlookup, bind_eq_ok.mpr ⟨_, hscope, rfl⟩⟩

/-- In one bucket two scopes overlap when their prefixes nest. -/
theorem namespaceScopesOverlap_same {pathname : Pathname} {bucket authority left right : String}
    (h : pathname authority = some bucket) :
    namespaceScopesOverlap pathname ⟨authority, left⟩ ⟨authority, right⟩ =
      .ok (prefixesNest left right) := by
  unfold namespaceScopesOverlap namespaceMayAlias pathnameOf
  simp [h, bind, Except.bind, pure, Except.pure]

theorem overlap_sample (texts : SampleTexts) (left right : String) :
    namespaceScopesOverlap plainEnv.pathname ⟨sampleAuthority, left⟩ ⟨sampleAuthority, right⟩ =
      .ok (prefixesNest left right) :=
  namespaceScopesOverlap_same texts.pathname

/-- The check of a database that knows one plan only. -/
theorem checkDatabase_plan {env : Env} {db : Database} {selected : Scope} {plan : Plan}
    {cache : ResolutionCache} (hplans : db.plans = [plan]) (hbackups : db.backups = [])
    (hremote : db.remoteManagedRepositories = []) (hretained : db.retainedManagedRepositories = [])
    (hdestinations : db.destinations = []) (hjobs : db.jobs = []) (hsettings : db.settings = [])
    (hplan : checkPlan env db selected [] plan = .ok cache) :
    checkDatabase env db selected = .ok cache := by
  unfold checkDatabase
  rw [hplans, hbackups, hremote, hretained, hdestinations, hjobs, hsettings]
  simp only [List.foldlM_cons, List.foldlM_nil, List.map_nil, hplan, bind,
    Except.bind, pure, Except.pure]

/-- A reservation in a database without edits, replicas and reservations. -/
theorem reserve_first {env : Env} {db : Database} {config : ExportConfig} {selected : Scope}
    {cache : ResolutionCache} (hselected : canonicalS3Location env config.endpoint config.bucket
      (config.bucket ++ "/" ++ config.keyPrefix) = .ok selected)
    (hedits : db.edits = []) (hnames : (db.storages.map fun row => remoteName env row.name).Nodup)
    (hcheck : checkDatabase env db selected = .ok cache) (hlegacy : db.legacyRepositories = [])
    (hinitialized : db.initialized = true) (hreservations : db.reservations = []) :
    reserveExportNamespace env db config = .ok { db with reservations := [selected] } := by
  have hreserve : db.reserve selected = { db with reservations := [selected] } := by
    simp [Database.reserve, hreservations]
  unfold reserveExportNamespace reserveTransaction
  simp only [hselected, hedits, hcheck, hlegacy, hinitialized, hreservations,
    hreserve, bind, Except.bind, List.anyM_nil, List.any_nil, pure, Except.pure, refuseIf,
    decide_eq_true hnames, Bool.not_true, Bool.false_eq_true, if_false, List.contains_nil,
    List.length_nil, Bool.not_false, Bool.true_and]
  rfl

theorem reserve_sample (texts : SampleTexts) :
    reserveExportNamespace plainEnv plannedDatabase ⟨"https://s3.amazonaws.com",
      "backups", "exports"⟩ =
      .ok reservedDatabase := by
  have hselected : canonicalS3Location plainEnv "https://s3.amazonaws.com" "backups"
      ("backups" ++ "/" ++ "exports") =
      .ok ⟨sampleAuthority, "exports"⟩ :=
    bind_eq_ok.mpr ⟨plainRuntime.security, rfl,
      bind_eq_ok.mpr ⟨_, texts.endpoint, texts.reserved.locate texts texts.host⟩⟩
  have hreference := cachedReferenceScope_sample texts plannedDatabase rfl texts.planUsed texts.plan
  have hoverlap := overlap_sample texts "exports" "plans/p1"
  rw [texts.apart] at hoverlap
  have hplan :
      checkPlan plainEnv plannedDatabase ⟨sampleAuthority, "exports"⟩ [] samplePlan = .ok _ :=
    bind_eq_ok.mpr ⟨_, bind_eq_ok.mpr ⟨_, hreference, bind_eq_ok.mpr ⟨false, hoverlap, rfl⟩⟩, rfl⟩
  exact reserve_first hselected rfl (List.nodup_singleton _)
    (checkDatabase_plan rfl rfl rfl rfl rfl rfl rfl hplan)
    rfl rfl rfl

/-- The run before the repository is created. -/
def reservedRun : List Op := (repositoryRun "").take 4

theorem step_of_run {env : Env} {db next : Database} {op : Op} (h : op.run env db = .ok next) :
    step env db op = next := by
  unfold step
  rw [h]

theorem after_reservedRun (texts : SampleTexts) :
    after plainEnv reservedRun = reservedDatabase := by
  have hrun : reservedRun = [.initializeExportNamespaceReservations, .createStorage sampleStorage,
    .createPlan samplePlan,
    .reserveExportNamespace ⟨"https://s3.amazonaws.com", "backups", "exports"⟩] := rfl
  have hinit : step plainEnv .empty .initializeExportNamespaceReservations =
      { Database.empty with initialized := true } := rfl
  have hstorage :
      step plainEnv { Database.empty with initialized := true } (.createStorage sampleStorage) =
      storedDatabase := step_of_run (createStorage_sample texts)
  have hplan : step plainEnv storedDatabase (.createPlan samplePlan) = plannedDatabase := rfl
  rw [after, hrun, List.foldl_cons, List.foldl_cons, List.foldl_cons, List.foldl_cons,
    List.foldl_nil, hinit, hstorage, hplan]
  exact step_of_run (reserve_sample texts)

theorem after_repositoryRun (texts : SampleTexts) (storagePath : String) :
    after plainEnv (repositoryRun storagePath) =
    step plainEnv reservedDatabase (.createRepository ⟨"r1", "p1", "a1", "s1", storagePath⟩) := by
  have hsplit : repositoryRun storagePath =
      reservedRun ++ [.createRepository ⟨"r1", "p1", "a1", "s1", storagePath⟩] := rfl
  rw [after, hsplit, List.foldl_append, ← after, after_reservedRun texts,
    List.foldl_cons, List.foldl_nil]

theorem repository_in_reserved_namespace :
    ¬ ∀ (env : Env) (ops : List Op), Exclusive env (after env ops) := by
  intro h
  have hexclusive := h plainEnv (repositoryRun "backups/exports/p1")
  have hscope : Database.scopeOf plainEnv
      (step plainEnv reservedDatabase (.createRepository ⟨"r1", "p1", "a1", "s1",
        "backups/exports/p1"⟩))
      (Repository.reference ⟨"r1", "p1", "a1", "s1", "backups/exports/p1"⟩) =
        some ⟨sampleAuthority, "exports/p1"⟩ := by
    have hreference := cachedReferenceScope_sample sampleTexts
      (step plainEnv reservedDatabase
        (.createRepository ⟨"r1", "p1", "a1", "s1", "backups/exports/p1"⟩)) rfl
      sampleTexts.exportedUsed sampleTexts.exported
    have hpath : Repository.reference ⟨"r1", "p1", "a1", "s1", "backups/exports/p1"⟩ =
        ⟨some "s1", some "backups/exports/p1"⟩ := rfl
    unfold Database.scopeOf referenceScope
    rw [hpath, hreference]
    rfl
  have hoverlap := overlap_sample sampleTexts "exports" "exports/p1"
  rw [sampleTexts.nested] at hoverlap
  rw [after_repositoryRun sampleTexts] at hexclusive
  refine hexclusive _
    (List.mem_append_left _ (List.mem_filterMap.mpr ⟨_, ?_, hscope⟩)) _ List.mem_cons_self hoverlap
  exact .tail _ (.head _)

theorem registered_scopes_exclusive_of_plan_path :
    (after plainEnv (repositoryRun "backups/plans/p1")).reservations =
        [⟨"https://s3.amazonaws.com/backups", "exports"⟩] ∧
      Exclusive plainEnv (after plainEnv ((repositoryRun "backups/plans/p1").take 5)) := by
  have hguard : Op.Guarded plainEnv reservedDatabase
      (.createRepository ⟨"r1", "p1", "a1", "s1", "backups/plans/p1"⟩) := by
    have hreference :=
      cachedReferenceScope_sample sampleTexts reservedDatabase rfl
        sampleTexts.planUsed sampleTexts.plan
    have hoverlap := overlap_sample sampleTexts "exports" "plans/p1"
    rw [sampleTexts.apart] at hoverlap
    have hclear : assertExportRepositoryScope plainEnv reservedDatabase
        ⟨sampleAuthority, "plans/p1"⟩ = .ok () :=
      bind_eq_ok.mpr ⟨false, bind_eq_ok.mpr ⟨false, hoverlap, rfl⟩, rfl⟩
    have hresolved :
        referenceScope plainEnv reservedDatabase ⟨some "s1", some "backups/plans/p1"⟩ none =
        .ok (some ⟨sampleAuthority, "plans/p1"⟩) := by
      unfold referenceScope
      rw [hreference]
      rfl
    exact fun _ => bind_eq_ok.mpr ⟨_, hresolved, hclear⟩
  refine ⟨?_, registered_scopes_exclusive plainEnv _ ?_ 5⟩
  · rw [after_repositoryRun sampleTexts]
    rfl
  · refine Run.along_append.mpr (⟨⟨trivial, trivial, trivial, trivial, trivial⟩, ?_, trivial⟩ :
      Run.Along (step plainEnv) (Op.Guarded plainEnv) .empty reservedRun ∧ _)
    have hreserved : reservedRun.foldl (step plainEnv) .empty = reservedDatabase :=
      after_reservedRun sampleTexts
    rwa [hreserved]

end Pluton.Namespaces
