-- SUMMARY: The agent's parser accepts every lifecycle the server sends, and reads it back.
import Pluton.Lifecycle.Encoding
import Pluton.Lifecycle.Policy

/-!
# Two validators of one lifecycle

The server's schema and the agent's parser were written independently. What the schema
accepts with the passwords put back in, the parser accepts too; the parser's value has
everything that was sent.
-/
namespace Pluton.Lifecycle

open Except

/-! ## What was sent, seen from the agent -/

def Agent.DatabaseBackup.toRemote (db : Agent.DatabaseBackup) : RemoteDatabase where
  databaseId := db.databaseId
  engine := db.engine
  host := db.host
  port := db.port
  tls := db.tls
  database := db.database
  username := db.username
  dumpFilename := db.dumpFilename
  timeoutSeconds := db.timeoutSeconds
  maxDumpBytes := db.maxDumpBytes
  includeRoutines := db.includeRoutines
  includeEvents := db.includeEvents
  password := some db.password
  passwordConfigured := none

def Agent.BackupLifecycle.toRemote : Agent.BackupLifecycle → RemoteLifecycle
  | .single database hooks => .single (database.map Agent.DatabaseBackup.toRemote) hooks
  | .collection databases hooks => .collection (databases.map Agent.DatabaseBackup.toRemote) hooks

/-- An entry that can be sent: it is valid, has its password, and has an id exactly in a
collection. -/
structure Sendable (collection : Bool) (db : RemoteDatabase) : Prop where
  valid : validDatabase db = true
  password : db.password.isSome = true
  unmarked : db.passwordConfigured = none
  id : db.databaseId.isSome = collection
  engine : collection = false → db.engine ≠ .postgresql

/-- A lifecycle that can be sent. -/
structure RemoteLifecycle.Ready (fold : String → String) (lifecycle : RemoteLifecycle) : Prop where
  valid : validLifecycle fold lifecycle = true
  entries : ∀ db ∈ lifecycleDatabases lifecycle, Sendable (!lifecycle.isSingle) db

/-! ## Readers of written values -/

section

variable {s : String} {pattern : String → Bool} {max : Nat}

theorem Agent.text_str (hlength : Js.length s ≤ max) (hpattern : pattern s = true) :
    Agent.text (some (.str s)) pattern max = .ok s := by
  unfold Agent.text
  simp [hlength, hpattern]

theorem Agent.integer_nat {n min : Nat} (hsafe : n ≤ Js.maxSafeInteger) (hmin : min ≤ n)
    (hmax : n ≤ max) :
    Agent.integer (some (.nat n)) min max = .ok n := by
  unfold Agent.integer Json.nat
  dsimp only
  rw [if_pos (Json.inRange_nat hsafe hmin hmax)]
  simp

theorem Agent.readEngine_name {collection : Bool} {engine : Engine}
    (h : collection = false → engine ≠ .postgresql) :
    Agent.readEngine collection (some (.str engine.name)) = .ok engine := by
  cases engine with
  | mysql => rfl
  | mariadb => rfl
  | postgresql =>
      cases collection with
      | true => rfl
      | false => exact absurd rfl (h rfl)

theorem Agent.readTls_name (tls : Tls) : Agent.readTls (some (.str tls.name)) = .ok tls := by
  cases tls <;> rfl

end

/-! ## Lengths of what matches -/

theorem length_filename {name : String} (h : filenamePattern name = true) :
    Js.length name = name.toList.length :=
  Pattern.length_of_ending h Pattern.narrow_word Pattern.narrow_dotted
    (show ∀ ch ∈ ['.', 's', 'q', 'l'], ch.toNat < 0x10000 by simp)

theorem length_databaseId {id : String} (h : Agent.databaseIdPattern id = true) :
    Js.length id = id.toList.length :=
  Pattern.length_of_after h Pattern.narrow_dashed (show ∀ ch ∈ ['d', 'b', '_'],
    ch.toNat < 0x10000 by simp)

theorem not_isEmpty_of_length {s : String} (h : 1 ≤ Js.length s) : s.isEmpty = false := by
  cases hempty : s.isEmpty with
  | false => rfl
  | true =>
      rw [String.isEmpty_iff.mp hempty] at h
      exact absurd h (by decide +kernel)

/-! ## Hooks -/

theorem Agent.hookArg_str {arg : String} (hlength : Js.length arg ≤ 128)
    (hpattern : Pattern.all argChar arg = true) (hsafe : unsafeArg arg = false) :
    Agent.hookArg (.str arg) = .ok arg := by
  unfold Agent.hookArg
  simp only [bind_eq_ok, refuseIf_eq_ok, pure_eq_ok]
  exact ⟨arg, Agent.text_str hlength hpattern, (), hsafe, rfl⟩

theorem Agent.hook_toJson {hook : Hook} (h : validHook hook = true) :
    Agent.hook (some hook.toJson) = .ok hook := by
  simp only [validHook, Bool.and_eq_true, decide_eq_true_eq, List.all_eq_true,
    Bool.not_eq_true'] at h
  obtain ⟨⟨⟨⟨⟨hid, hlength⟩, hargs⟩, hcount⟩, hmin⟩, hmax⟩ := h
  have hidLength : Js.length hook.id ≤ 100 := by
    rw [Pattern.length_of_headed hid Pattern.narrow_dashed Pattern.narrow_dotted]
    exact hlength
  have hread : (hook.args.map Json.str).mapM Agent.hookArg = .ok hook.args := by
    rw [mapM_eq_ok, List.forall₂_map_left_iff, List.forall₂_same]
    intro arg harg
    obtain ⟨⟨harglen, hpattern⟩, hsafe⟩ := hargs arg harg
    exact Agent.hookArg_str harglen hpattern hsafe
  unfold Agent.hook Hook.toJson Agent.record Agent.keys
  simp only [bind_eq_ok, pure_eq_ok, refuseIf_eq_ok]
  refine ⟨_, rfl, (), by simp, hook.args.map Json.str, ?_, hook.id, ?_, hook.args, hread,
    hook.timeoutSeconds,
    ?_, rfl⟩
  · simp [Agent.array, Json.texts, hcount]
  · simpa using Agent.text_str hidLength hid
  · simpa using Agent.integer_nat (Nat.le_trans hmax (by decide)) hmin hmax

theorem Agent.optionalHook_toJson {hook : Option Hook} (h : hook.all validHook = true) :
    Agent.optionalHook (hook.map Hook.toJson) = .ok hook := by
  cases hook with
  | none => rfl
  | some held =>
      simp only [Option.map_some, Agent.optionalHook, map_eq_ok]
      exact ⟨held, Agent.hook_toJson h, rfl⟩

/-! ## Entries -/

/-- What the parser makes of an entry. -/
def received (db : RemoteDatabase) : Agent.DatabaseBackup where
  databaseId := db.databaseId
  engine := db.engine
  host := db.host
  port := db.port
  database := db.database
  tls := db.tls
  username := db.username
  password := db.password.getD ""
  dumpFilename := db.dumpFilename
  timeoutSeconds := db.timeoutSeconds
  maxDumpBytes := db.maxDumpBytes
  includeRoutines := db.includeRoutines
  includeEvents := db.includeEvents

variable {db : RemoteDatabase} {databases : List RemoteDatabase} {collection : Bool} {hooks : Hooks}
  {database : Option RemoteDatabase}

theorem Sendable.toRemote_received (h : Sendable collection db) :
    (received db).toRemote = db := by
  obtain ⟨password, hpassword⟩ := Option.isSome_iff_exists.mp h.password
  have hmarked := h.unmarked
  obtain ⟨⟩ := db
  simp_all [received, Agent.DatabaseBackup.toRemote]

theorem Sendable.databaseId (h : Sendable collection db) :
    Agent.readDatabaseId collection (db.databaseId.map .str) = .ok db.databaseId := by
  have hvalid := h.valid
  simp only [validDatabase, validEntry, Bool.and_eq_true] at hvalid
  have hid := h.id
  cases hdatabaseId : db.databaseId with
  | none =>
      rw [hdatabaseId] at hid
      subst hid
      rfl
  | some id =>
      have hvalidId : validDatabaseId id = true := by simp_all
      rw [hdatabaseId] at hid
      subst hid
      simp only [validDatabaseId, Bool.and_eq_true, decide_eq_true_eq] at hvalidId
      have hlength : Js.length id ≤ 67 := by
        rw [length_databaseId hvalidId.1]
        exact hvalidId.2
      simp only [Agent.readDatabaseId, Option.isSome_some, if_true, Option.map_some, map_eq_ok]
      exact ⟨id, Agent.text_str hlength hvalidId.1, rfl⟩

theorem Sendable.keys (h : Sendable collection db) :
    ∃ fields, db.toJson = .obj fields ∧
      Agent.keys fields (Agent.databaseKeys collection) = .ok () := by
  refine ⟨_, rfl, ?_⟩
  have hid := h.id
  subst hid
  unfold Agent.keys Agent.databaseKeys
  rw [refuseIf_eq_ok]
  cases db.databaseId <;> simp [h.unmarked]

/-- The lengths the parser checks are those of the schema. -/
theorem Sendable.limits (h : Sendable collection db) :
    Js.length db.database ≤ (if db.engine == .postgresql then 63 else 64) ∧
      Js.length db.username ≤ (if db.engine == .postgresql then 63 else 80) ∧
      Js.length db.dumpFilename ≤ 100 := by
  have hvalid := h.valid
  simp only [validDatabase, validEntry, validPostgres, Bool.and_eq_true,
    decide_eq_true_eq] at hvalid
  have hdatabase : Js.length db.database = db.database.toList.length :=
    Pattern.length_of_headed (by simp_all) Pattern.narrow_word Pattern.narrow_dashed
  have husername : Js.length db.username = db.username.toList.length :=
    Pattern.length_of_headed (by simp_all) Pattern.narrow_word Pattern.narrow_dotted
  have hfilename : Js.length db.dumpFilename = db.dumpFilename.toList.length :=
    length_filename (by simp_all)
  cases hengine : db.engine <;> simp_all

theorem Agent.readDatabase_toJson (h : Sendable collection db) :
    Agent.readDatabase collection db.toJson = .ok (received db) := by
  obtain ⟨password, hpassword⟩ := Option.isSome_iff_exists.mp h.password
  obtain ⟨hdatabase, husername, hfilename⟩ := h.limits
  obtain ⟨fields, hfields, hkeys⟩ := h.keys
  have hvalid := h.valid
  simp only [validDatabase, validEntry, validPostgres, validPassword, Bool.and_eq_true,
    decide_eq_true_eq, hpassword, Option.all_some, Bool.or_eq_true, bne_iff_ne, ne_eq,
    Bool.not_eq_true'] at hvalid
  obtain ⟨⟨⟨⟨⟨⟨⟨⟨⟨⟨⟨⟨⟨⟨⟨⟨⟨-, hhostLength⟩, hhost⟩, hport⟩, hport'⟩, hdatabaseName⟩, -⟩,
    husernameName⟩, -⟩, hfilenameName⟩, -⟩, htimeout⟩, htimeout'⟩, hdump⟩, hdump'⟩,
    ⟨hnonempty, hpasswordLength⟩, hnul⟩, hlocal⟩, hengine⟩ := hvalid
  have hread : Agent.text (some (.str password)) Agent.passwordPattern 1024 = .ok password := by
    apply Agent.text_str hpasswordLength
    simp [Agent.passwordPattern, not_isEmpty_of_length hnonempty, hnul]
  have hsafe : maxDumpBytesLimit ≤ Js.maxSafeInteger := by decide
  unfold Agent.readDatabase
  simp only [bind_eq_ok, refuseIf_eq_ok, pure_eq_ok]
  refine ⟨fields, by rw [hfields]; rfl, (), hkeys, db.engine, ?_, db.tls, ?_, (), ?_,
    password, ?_, (), ?_,
    db.databaseId, ?_, db.host, ?_, db.port, ?_, db.database, ?_, db.username, ?_,
    db.dumpFilename, ?_,
    db.timeoutSeconds, ?_, db.maxDumpBytes, ?_, db.includeRoutines, ?_, db.includeEvents, ?_, ?_⟩
  all_goals
    unfold RemoteDatabase.toJson at hfields
    cases hfields
  · simpa using Agent.readEngine_name h.engine
  · simpa using Agent.readTls_name db.tls
  · rcases hlocal with hother | hloopback
    · simp [hother]
    · simp [Agent.printsLoopback, hloopback]
  · simpa [hpassword] using hread
  · rcases hengine with hother | hpostgres
    · simp [hother]
    · simp [hpostgres]
  · simpa using h.databaseId
  · simpa using Agent.text_str hhostLength hhost
  · simpa using Agent.integer_nat (Nat.le_trans hport' (by decide)) hport hport'
  · simpa using Agent.text_str hdatabase hdatabaseName
  · simpa using Agent.text_str husername husernameName
  · simpa using Agent.text_str hfilename hfilenameName
  · simpa using Agent.integer_nat (Nat.le_trans htimeout' (by decide)) htimeout htimeout'
  · simpa using Agent.integer_nat (Nat.le_trans hdump' hsafe) hdump hdump'
  · simp [Agent.bool]
  · simp [Agent.bool]
  · simp [received, hpassword]

/-! ## The lifecycle -/

theorem Agent.readHooks_fields {input : Json.Fields} (h : validHooks hooks = true)
    (hpre : Json.field input "preHook" = hooks.preHook.map Hook.toJson)
    (hpost : Json.field input "postHook" = hooks.postHook.map Hook.toJson) :
    Agent.readHooks input = .ok hooks := by
  simp only [validHooks, Bool.and_eq_true] at h
  unfold Agent.readHooks
  simp only [bind_eq_ok, pure_eq_ok]
  refine ⟨hooks.preHook, ?_, hooks.postHook, ?_, rfl⟩
  · rw [hpre]
    exact Agent.optionalHook_toJson h.1
  · rw [hpost]
    exact Agent.optionalHook_toJson h.2

theorem Agent.readDatabases_toJson (h : ∀ db ∈ databases, Sendable collection db) :
    (databases.map RemoteDatabase.toJson).mapM (Agent.readDatabase collection) =
      .ok (databases.map received) := by
  rw [mapM_eq_ok, List.forall₂_map_left_iff, List.forall₂_map_right_iff, List.forall₂_same]
  exact fun db hdb => Agent.readDatabase_toJson (h db hdb)

/-- All ids of a collection are there, so they are distinct as the parser compares them. -/
theorem nodup_databaseIds (hentries : ∀ db ∈ databases, Sendable true db)
    (h : (databases.filterMap fun db => db.databaseId.filter fun id => !id.isEmpty).Nodup) :
    (databases.map RemoteDatabase.databaseId).Nodup := by
  have hsome : databases.map RemoteDatabase.databaseId =
      (databases.filterMap fun db => db.databaseId.filter fun id => !id.isEmpty).map some := by
    rw [List.map_filterMap]
    refine Eq.symm (List.filterMap_eq_map_iff_forall_eq_some.mpr ?_)
    intro db hdb
    have hsend := hentries db hdb
    obtain ⟨id, hid⟩ := Option.isSome_iff_exists.mp hsend.id
    have hvalid := hsend.valid
    simp only [validDatabase, validEntry, Bool.and_eq_true, hid, Option.all_some] at hvalid
    have hnonempty : id.isEmpty = false := by
      cases hempty : id.isEmpty with
      | false => rfl
      | true =>
          have hvalidId : validDatabaseId id = true := by simp_all
          rw [String.isEmpty_iff.mp hempty] at hvalidId
          exact absurd hvalidId (by decide +kernel)
    rw [hid, Option.filter_some, hnonempty]
    rfl
  rw [hsome]
  exact h.map (Option.some_injective _)

variable {fold : String → String}

theorem parseBackupLifecycle_collection
    (h : (RemoteLifecycle.collection databases hooks).Ready fold) :
    Agent.parseBackupLifecycle fold (some (RemoteLifecycle.collection databases hooks).toJson) =
      .ok (.collection (databases.map received) hooks) := by
  have hvalid := h.valid
  simp only [validLifecycle, distinctEntries, Bool.and_eq_true, decide_eq_true_eq] at hvalid
  obtain ⟨⟨⟨-, hcount⟩, hhooks⟩, hnames, hids⟩ := hvalid
  have hentries : ∀ db ∈ databases, Sendable true db := h.entries
  have hnodup := nodup_databaseIds hentries hids
  unfold Agent.parseBackupLifecycle RemoteLifecycle.toJson
  simp only [bind_eq_ok, refuseIf_eq_ok, pure_eq_ok]
  refine ⟨_, rfl, true, ?_, (), ?_, databases.map RemoteDatabase.toJson, ?_, databases.map received,
    Agent.readDatabases_toJson hentries, (), ?_, hooks, Agent.readHooks_fields hhooks ?_ ?_, rfl⟩
  · simp [Agent.readVersion]
  · simp [Agent.keys, Hooks.fields]
  · simpa [Agent.readEntries, Agent.array, maxPlanDatabases] using hcount
  · simp only [List.map_map]
    have hcompose : (Agent.DatabaseBackup.databaseId ∘ received) = RemoteDatabase.databaseId := rfl
    rw [hcompose]
    simp only [Function.comp_def, received, Bool.or_eq_false_iff,
      Bool.not_eq_false', decide_eq_true_eq]
    exact ⟨decide_eq_true hnames, hnodup⟩
  · simp [Hooks.fields]
  · simp [Hooks.fields]

theorem parseBackupLifecycle_single (h : (RemoteLifecycle.single database hooks).Ready fold) :
    Agent.parseBackupLifecycle fold (some (RemoteLifecycle.single database hooks).toJson) =
      .ok (.single (database.map received) hooks) := by
  have hvalid := h.valid
  simp only [validLifecycle, Bool.and_eq_true] at hvalid
  have hentries : ∀ db ∈ database.toList, Sendable false db := h.entries
  unfold Agent.parseBackupLifecycle RemoteLifecycle.toJson
  simp only [bind_eq_ok, refuseIf_eq_ok, pure_eq_ok]
  refine ⟨_, rfl, false, ?_, (), ?_, database.toList.map RemoteDatabase.toJson, ?_,
    database.toList.map received,
    Agent.readDatabases_toJson hentries, (), ?_, hooks, Agent.readHooks_fields hvalid.2 ?_ ?_, ?_⟩
  · simp [Agent.readVersion]
  · simp [Agent.keys, Hooks.fields]
  · cases database <;> simp [Agent.readEntries, Hooks.fields]
  · cases database <;> simp
  · simp [Hooks.fields]
  · simp [Hooks.fields]
  · cases database <;> simp

/-- The parser accepts what is ready to be sent, and has all of it. -/
theorem parseBackupLifecycle_toJson {lifecycle : RemoteLifecycle} (h : lifecycle.Ready fold) :
    ∃ parsed, Agent.parseBackupLifecycle fold (some lifecycle.toJson) = .ok parsed ∧
      parsed.toRemote = lifecycle := by
  cases lifecycle with
  | single database hooks =>
      refine ⟨_, parseBackupLifecycle_single h, ?_⟩
      cases database with
      | none => rfl
      | some db =>
          have hsend : Sendable false db := h.entries db List.mem_cons_self
          simp [Agent.BackupLifecycle.toRemote, hsend.toRemote_received]
  | collection databases hooks =>
      refine ⟨_, parseBackupLifecycle_collection h, ?_⟩
      have hsame : databases.map (fun db => (received db).toRemote) = databases := by
        refine (List.map_congr_left ?_).trans (List.map_id databases)
        exact fun db hdb => (h.entries db hdb).toRemote_received
      simp [Agent.BackupLifecycle.toRemote, Function.comp_def, hsame]

/-! ## What a materialisation returns -/

theorem validDatabase_of_mem_collection
    (h : validLifecycle fold (.collection databases hooks) = true) (hdb : db ∈ databases) :
    validDatabase db = true := by
  simp only [validLifecycle, Bool.and_eq_true, List.all_eq_true] at h
  exact h.1.1.1 db hdb

theorem materializeEntry_cases {cryptr : Cryptr} {credentials : List DatabaseCredential}
    {entry db : RemoteDatabase} (h : materializeEntry cryptr credentials entry = .ok db) :
    db.password.isSome = true ∧ db.passwordConfigured = none ∧ db.databaseId.isSome = true := by
  unfold materializeEntry at h
  split at h
  · cases h
  · simp only [bind_eq_ok, refuseIf_eq_ok, pure_eq_ok, Bool.or_eq_false_iff,
      Bool.not_eq_false'] at h
    obtain ⟨_, ⟨hid, -⟩, password, -, rfl⟩ := h
    refine ⟨rfl, rfl, ?_⟩
    cases hentry : entry.databaseId with
    | none =>
        rw [hentry] at hid
        cases hid
    | some id => rfl

theorem materializeRemoteLifecycleCollection_ready {cryptr : Cryptr} {value full : RemoteLifecycle}
    {credentials : List DatabaseCredential}
    (h : materializeRemoteLifecycleCollection fold cryptr value credentials = .ok full) :
    full.Ready fold := by
  unfold materializeRemoteLifecycleCollection at h
  rw [bind_eq_ok] at h
  obtain ⟨lifecycle, -, h⟩ := h
  rw [mapError_eq_ok, materializeEntries, bind_eq_ok] at h
  obtain ⟨databases, hentries, h⟩ := h
  obtain ⟨hvalid, rfl⟩ := parseRemoteLifecycle_eq_ok.mp h
  refine { valid := hvalid, entries := ?_ }
  intro db hdb
  obtain ⟨entry, -, hentry⟩ := mem_of_mapM hentries hdb
  obtain ⟨hpassword, hmarked, hid⟩ := materializeEntry_cases hentry
  exact { valid := validDatabase_of_mem_collection hvalid hdb, password := hpassword,
          unmarked := hmarked, id := hid,
          engine := fun hsingle => by cases hsingle }

theorem sendable_single {database : RemoteDatabase}
    (h : validLifecycle fold (.single (some database) hooks) = true)
    (hpassword : database.password.isSome = true) (hmarked : database.passwordConfigured = none) :
    Sendable false database := by
  simp only [validLifecycle, Option.all_some, Bool.and_eq_true, bne_iff_ne] at h
  obtain ⟨⟨⟨hvalid, hengine⟩, hid⟩, -⟩ := h
  exact { valid := hvalid, password := hpassword, unmarked := hmarked, engine := fun _ => hengine
          id := by rw [Option.isNone_iff_eq_none.mp hid]; rfl }

theorem ready_single (h : validLifecycle fold (.single database hooks) = true)
    (hdatabase : ∀ db ∈ database, db.password.isSome = true ∧ db.passwordConfigured = none) :
    (RemoteLifecycle.single database hooks).Ready fold := by
  refine { valid := h, entries := ?_ }
  intro db hdb
  obtain rfl : database = some db := by simpa [lifecycleDatabases] using hdb
  obtain ⟨hpassword, hmarked⟩ := hdatabase db rfl
  exact sendable_single h hpassword hmarked

theorem materializeRemoteLifecycle_ready {cryptr : Cryptr} {full : RemoteLifecycle}
    {credential : Option String}
    (h : materializeRemoteLifecycle fold cryptr (.single database hooks) credential = .ok full) :
    full.Ready fold := by
  unfold materializeRemoteLifecycle at h
  rw [bind_eq_ok] at h
  obtain ⟨lifecycle, hparse, h⟩ := h
  obtain ⟨hvalid, rfl⟩ := parseRemoteLifecycle_eq_ok.mp hparse
  cases database with
  | none =>
      cases h
      exact ready_single hvalid fun db hdb => by cases hdb
  | some database =>
      dsimp only at h
      split at h
      · rw [mapError_eq_ok, materializeSingle, bind_eq_ok] at h
        obtain ⟨password, -, h⟩ := h
        obtain ⟨hvalid', rfl⟩ := parseRemoteLifecycle_eq_ok.mp h
        apply ready_single hvalid'
        rintro db ⟨⟩
        exact ⟨rfl, rfl⟩
      · cases h

end Pluton.Lifecycle
