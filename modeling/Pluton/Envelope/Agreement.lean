-- SUMMARY: Every payload the server materialises is accepted and read by the agent as meant.
import Pluton.Envelope.Command
import Pluton.Lifecycle.Agreement
import Pluton.Lifecycle.Credentials

/-!
# Server and agent agree on the payload

The two sides check the envelope with code of their own. What `materializeCommand`
checked before it returned is enough for each check of the agent's parser.
-/
namespace Pluton.Envelope

open Except Lifecycle

@[simp] theorem during_eq_ok {α : Type} {stage : Stage} {x : Except AppError α} {a : α} :
    during stage x = .ok a ↔ x = .ok a := mapError_eq_ok

/-! ## What the server checked -/

/-- A text that the agent's `requiredString` accepts. -/
structure Plain (max : Nat) (text : String) : Prop where
  nonempty : text.isEmpty = false
  length : Js.length text ≤ max
  controls : unsafeControls text = false

theorem Plain.mono {min max : Nat} {text : String} (h : Plain min text) (hle : min ≤ max) :
    Plain max text :=
  { h with length := Nat.le_trans h.length hle }

theorem requiredString_str {max : Nat} {text label : String} (h : Plain max text) :
    requiredString (some (.str text)) label max = .ok text := by
  unfold requiredString
  simp [h.nonempty, h.length, h.controls]

theorem getSingleSource_cases {config : PlanSource} {source : String}
    (h : getSingleSource config = .ok source) :
    Plain 4096 source := by
  unfold getSingleSource at h
  split at h
  · simp only [bind_eq_ok, pure_eq_ok, validateAbsoluteLinuxPath, refuseIf_eq_ok,
      Bool.or_eq_false_iff, decide_eq_false_iff_not, Nat.not_lt] at h
    obtain ⟨_, ⟨⟨⟨⟨hnonempty, hlength⟩, -⟩, hcontrols⟩, -⟩, rfl⟩ := h
    exact { nonempty := hnonempty, length := hlength, controls := hcontrols }
  · cases h

theorem validateStoragePath_cases {path : String} (h : validateStoragePath path = .ok ()) :
    Plain 4096 path ∧ hasTraversal path = false := by
  unfold validateStoragePath at h
  simp only [bind_eq_ok, refuseIf_eq_ok, Bool.or_eq_false_iff,
    decide_eq_false_iff_not, Nat.not_lt] at h
  obtain ⟨_, ⟨⟨hnonempty, hlength⟩, hcontrols⟩, htraversal⟩ := h
  exact ⟨{ nonempty := hnonempty, length := hlength, controls := hcontrols }, htraversal⟩

/-- Patterns that are not empty were read once more when they were anchored. -/
theorem getSafeExcludes_cases {letter : Char → Bool} {config : PlanSource} {patterns : List String}
    (h : getSafeExcludes letter config = .ok patterns) (hsome : patterns.isEmpty = false) :
    ∃ parsed, parseBackupExclusions letter (some (Json.texts patterns)) = .ok parsed := by
  unfold getSafeExcludes safeExcludes at h
  simp only [mapError_eq_ok, bind_eq_ok, pure_eq_ok] at h
  obtain ⟨found, -, _, hanchorable, rfl⟩ := h
  unfold anchorable at hanchorable
  simp only [hsome, Bool.false_eq_true, if_false, bind_eq_ok] at hanchorable
  obtain ⟨source, -, result, hresult, -⟩ := hanchorable
  exact sourceResticExclusions_cases hresult

/-! ## Storage options -/

theorem escapeLines_ne_nil {chars : List Char} (h : chars ≠ []) : escapeLines chars ≠ [] := by
  fun_cases escapeLines chars <;> simp_all

theorem printed_nonempty {value : StorageValue} (h : isMeaningfulStorageValue value = true) :
    value.printed.toList ≠ [] := by
  cases value with
  | text value =>
      intro hnil
      have hempty : value = "" := String.toList_inj.mp hnil
      rw [hempty] at h
      exact absurd h (by decide +kernel)
  | number printed zero nonempty =>
      intro hnil
      have hempty : printed = "" := String.toList_inj.mp hnil
      rw [hempty] at nonempty
      exact absurd nonempty (by decide +kernel)
  | bool value =>
      cases value with
      | true => decide +kernel
      | false => cases h
  | other => cases h

theorem sftpOption_cases {entry : String × StorageValue} {option : String × String}
    (h : sftpOption entry = .ok option) (hmeans : isMeaningfulStorageValue entry.2 = true) :
    SFTP_OPTION_KEYS.contains option.1 = true ∧ Plain 16384 option.2 := by
  unfold sftpOption at h
  simp only [bind_eq_ok, pure_eq_ok, refuseIf_eq_ok, decide_eq_false_iff_not, Nat.not_lt,
    Bool.not_eq_false'] at h
  obtain ⟨_, hkey, _, hlength, _, hcontrols, rfl⟩ := h
  refine ⟨hkey, { nonempty := ?_, length := hlength, controls := hcontrols }⟩
  have hne := escapeLines_ne_nil (printed_nonempty hmeans)
  cases hempty : (String.ofList (escapeLines entry.2.printed.toList)).isEmpty with
  | false => rfl
  | true =>
      have hnil := congrArg String.toList (String.isEmpty_iff.mp hempty)
      rw [String.toList_ofList] at hnil
      exact absurd hnil hne

/-- Options that the agent accepts. -/
structure SafeOptions (options : List (String × String)) : Prop where
  entries : ∀ option ∈ options, SFTP_OPTION_KEYS.contains option.1 = true ∧ Plain 16384 option.2
  required : (lacks options "host" || lacks options "user" || lacks options "pass") = false

theorem materializeSftpStorage_cases {cryptr : Cryptr} {server : Server cryptr} {storageId : String}
    {options : List (String × String)} (h : materializeSftpStorage server storageId = .ok options) :
    SafeOptions options := by
  unfold materializeSftpStorage at h
  simp only [bind_eq_ok, pure_eq_ok, during_eq_ok, refuseIf_eq_ok] at h
  obtain ⟨storage, -, decrypted, -, _, -, found, hfound, _, hrequired, rfl⟩ := h
  refine { entries := ?_, required := hrequired }
  intro option hoption
  obtain ⟨entry, hentry, hresult⟩ := mem_of_mapM hfound hoption
  exact sftpOption_cases hresult (List.mem_filter.mp hentry).2

theorem validateRcloneOptions_toObject {options : List (String × String)}
    (h : SafeOptions options) :
    validateRcloneOptions (some (toObject options)) = .ok options := by
  have hread :
      (options.map fun entry => (entry.1, Json.str entry.2)).mapM validateOption = .ok options := by
    rw [mapM_eq_ok, List.forall₂_map_left_iff, List.forall₂_same]
    intro option hoption
    obtain ⟨hkey, hplain⟩ := h.entries option hoption
    unfold validateOption
    simp only [bind_eq_ok, pure_eq_ok, refuseIf_eq_ok, hkey]
    exact ⟨(), rfl, option.2, requiredString_str hplain, rfl⟩
  unfold validateRcloneOptions toObject
  simp only [bind_eq_ok, pure_eq_ok, refuseIf_eq_ok]
  exact ⟨_, rfl, options, hread, (), h.required, rfl⟩

/-! ## Ids and passwords -/

theorem dashed_not_control {ch : Char} (h : Pattern.dashed ch = true) :
    ¬(ch.toNat < 32) ∧ ch.toNat ≠ 127 := by
  simp only [Pattern.dashed, Pattern.word, Pattern.alnum, Char.isAlphanum] at h
  delta Char.isAlpha at h
  delta Char.isUpper Char.isLower at h
  simp only [Char.isDigit, Bool.or_eq_true, Bool.and_eq_true, decide_eq_true_eq, beq_iff_eq] at h
  rcases h with ((((⟨hlow, hhigh⟩ | ⟨hlow, hhigh⟩) | ⟨hlow, hhigh⟩) | rfl) | rfl)
  case inr => decide
  case inl.inr => decide
  all_goals
    have hlow' := UInt32.le_iff_toNat_le.mp hlow
    have hhigh' := UInt32.le_iff_toNat_le.mp hhigh
    simp at hlow' hhigh'
    omega

theorem plain_of_dashed {text : String} {max : Nat} (hpos : 0 < text.toList.length)
    (hmax : text.toList.length ≤ max) (hall : ∀ ch ∈ text.toList, Pattern.dashed ch = true) :
    Plain max text where
  nonempty := by
    cases hempty : text.isEmpty with
    | false => rfl
    | true =>
        rw [String.isEmpty_iff.mp hempty] at hpos
        cases hpos
  length := by
    rw [Pattern.length_of_narrow fun ch hch => Pattern.narrow_dashed ch (hall ch hch)]
    exact hmax
  controls := by
    unfold unsafeControls
    rw [List.any_eq_false]
    intro ch hch
    obtain ⟨hlow, hdel⟩ := dashed_not_control (hall ch hch)
    simpa using ⟨Nat.le_of_not_lt hlow, hdel⟩

theorem Uid.dashed (id : Uid) : ∀ ch ∈ id.text.toList, Pattern.dashed ch = true := by
  intro ch hch
  have hformat := List.all_eq_true.mp id.format.2 ch hch
  simp only [Bool.or_eq_true] at hformat
  simp only [Pattern.dashed, Pattern.word, Pattern.alnum, Char.isAlphanum]
  delta Char.isAlpha
  simp only [Bool.or_eq_true]
  tauto

theorem validateId_uid (id : Uid) (label : String) :
    validateId (some (.str id.text)) label = .ok id.text := by
  have hplain : Plain 160 id.text := by
    apply plain_of_dashed _ _ id.dashed
    · rw [id.format.1]
      decide
    · rw [id.format.1]
      decide
  have hall : Pattern.all Pattern.dashed id.text = true := List.all_eq_true.mpr id.dashed
  unfold validateId
  simp only [bind_eq_ok, pure_eq_ok, refuseIf_eq_ok, Bool.not_eq_false']
  exact ⟨id.text, requiredString_str hplain, (), hall, rfl⟩

/-- The password of a repository is one the agent accepts. -/
theorem decryptRepositoryPassword_cases {cryptr : Cryptr} {repository : ManagedRepository cryptr}
    {password : String}
    (h : @decryptRepositoryPassword cryptr repository.encryptedPassword = .ok password) :
    Plain 512 password ∧ 20 ≤ Js.length password := by
  obtain ⟨drawn, hdecrypt, hlength, hdashed⟩ := repository.password_format
  unfold decryptRepositoryPassword at h
  rw [hdecrypt] at h
  obtain rfl : drawn = password := Except.ok.inj h
  refine ⟨plain_of_dashed (by omega) (by omega) hdashed, ?_⟩
  rw [Pattern.length_of_narrow fun ch hch => Pattern.narrow_dashed ch (hdashed ch hch)]
  omega

/-! ## The lifecycle -/

section

variable {cryptr : Cryptr} {server : Server cryptr} {fold : String → String} {letter : Char → Bool}
  {plan : Plan} {agent : AgentIdentity} {records : ManagedRecords cryptr} {excludes : List String}
  {materials : Materials} {sent : Option RemoteLifecycle} {value full : RemoteLifecycle}

theorem materializedLifecycle_ready (h : materializedLifecycle server fold plan value = .ok full) :
    full.Ready fold := by
  cases value with
  | single database hooks => exact materializeRemoteLifecycle_ready h
  | collection databases hooks => exact materializeRemoteLifecycleCollection_ready h

theorem downgraded_cases {full sent : RemoteLifecycle} (hfull : full.Ready fold)
    (h : downgraded fold full = .ok sent) :
    sent.Ready fold ∧ sent.hooks = full.hooks ∧
      lifecycleDatabases sent =
        ((lifecycleDatabases full).map fun db => { db with databaseId := none }).take 1 := by
  unfold downgraded at h
  obtain ⟨hvalid, rfl⟩ := parseRemoteLifecycle_eq_ok.mp h
  refine ⟨ready_single hvalid ?_, rfl, ?_⟩
  · intro db hdb
    obtain ⟨source, hsource, rfl⟩ := Option.map_eq_some_iff.mp hdb
    have hsend := hfull.entries source (List.mem_of_head? hsource)
    exact ⟨hsend.password, hsend.unmarked⟩
  · cases hdatabases : lifecycleDatabases full with
    | nil => rfl
    | cons first rest => rfl

/-- A plan has at most one database when its agent knows version 1 only. -/
theorem assertSupportedPlan_cases {value : RemoteLifecycle}
    (h : assertSupportedPlan server fold letter plan false = .ok ())
    (hplan : plan.remoteLifecycle = some value)
    (hagent : getCapableAgent server plan.sourceId = .ok agent)
    (hlegacy : legacyAgent agent = true) : (lifecycleDatabases value).length ≤ 1 := by
  unfold assertSupportedPlan at h
  simp only [bind_eq_ok, during_eq_ok, hplan] at h
  obtain ⟨_, -, _, -, _, -, _, -, _, -, _, -, _, -, _, -, _, hlifecycle, -⟩ := h
  unfold assertLifecycle at hlifecycle
  simp only [bind_eq_ok, refuseIf_eq_ok] at hlifecycle
  obtain ⟨lifecycle, hparse, _, -, other, hother, hsupported⟩ := hlifecycle
  obtain ⟨-, rfl⟩ := parseRemoteLifecycle_eq_ok.mp hparse
  rw [hagent] at hother
  obtain rfl : agent = other := Except.ok.inj hother
  unfold legacyAgent at hlegacy
  unfold unsupported at hsupported
  simp only [beq_iff_eq.mp hlegacy, Option.getD_some, Bool.or_eq_false_iff,
    beq_self_eq_true, Bool.true_and, decide_eq_false_iff_not, Nat.not_lt] at hsupported
  exact hsupported.1.1.2.1

theorem materializeRemoteLifecycle_isSingle {database : Option RemoteDatabase} {hooks : Hooks}
    {full : RemoteLifecycle} {credential : Option String}
    (h : materializeRemoteLifecycle fold cryptr (.single database hooks) credential = .ok full) :
    full.isSingle = true := by
  unfold materializeRemoteLifecycle at h
  rw [bind_eq_ok] at h
  obtain ⟨lifecycle, hparse, h⟩ := h
  obtain ⟨-, rfl⟩ := parseRemoteLifecycle_eq_ok.mp hparse
  cases database with
  | none =>
      cases h
      rfl
  | some database =>
      dsimp only at h
      split at h
      · rw [mapError_eq_ok, materializeSingle, bind_eq_ok] at h
        obtain ⟨password, -, h⟩ := h
        obtain ⟨-, rfl⟩ := parseRemoteLifecycle_eq_ok.mp h
        rfl
      · cases h

theorem length_materializeRemoteLifecycleCollection {credentials : List DatabaseCredential}
    (h : materializeRemoteLifecycleCollection fold cryptr value credentials = .ok full) :
    (lifecycleDatabases full).length = (lifecycleDatabases value).length := by
  unfold materializeRemoteLifecycleCollection at h
  rw [bind_eq_ok] at h
  obtain ⟨lifecycle, hparse, h⟩ := h
  obtain ⟨-, rfl⟩ := parseRemoteLifecycle_eq_ok.mp hparse
  rw [mapError_eq_ok, materializeEntries, bind_eq_ok] at h
  obtain ⟨databases, hentries, h⟩ := h
  obtain ⟨-, rfl⟩ := parseRemoteLifecycle_eq_ok.mp h
  exact (mapM_eq_ok.mp hentries).length_eq.symm

theorem length_materializedLifecycle (h : materializedLifecycle server fold plan value = .ok full)
    (hvalue : (lifecycleDatabases value).length ≤ 1) :
    (lifecycleDatabases full).length ≤ 1 := by
  cases value with
  | single database hooks =>
      have hsingle := materializeRemoteLifecycle_isSingle h
      cases full with
      | single database hooks => exact Option.length_toList_le
      | collection databases hooks => cases hsingle
  | collection databases hooks =>
      rw [length_materializeRemoteLifecycleCollection h]
      exact hvalue

/-- An entry as the agent gets it: one that knows version 1 only gets no id. -/
def sentEntry (agent : AgentIdentity) (db : RemoteDatabase) : RemoteDatabase :=
  if legacyAgent agent then { db with databaseId := none } else db

/-- What the agent read is the lifecycle of the plan with its passwords: the same
databases in the same order, and the same hooks. -/
def Delivered (server : Server cryptr) (fold : String → String) (plan : Plan)
    (agent : AgentIdentity) (lifecycle : Option Agent.BackupLifecycle) : Prop :=
  match plan.remoteLifecycle with
  | none => lifecycle = none
  | some value =>
      ∃ full parsed, materializedLifecycle server fold plan value = .ok full ∧
      lifecycle = some parsed ∧
      lifecycleDatabases parsed.toRemote = (lifecycleDatabases full).map (sentEntry agent) ∧
      parsed.toRemote.hooks = full.hooks

theorem sentLifecycle_cases (h : sentLifecycle server fold plan agent = .ok sent)
    (hsupported : assertSupportedPlan server fold letter plan false = .ok ())
    (hagent : getCapableAgent server plan.sourceId = .ok agent) :
    (∀ lifecycle ∈ sent, lifecycle.Ready fold) ∧
      ∀ lifecycle : Option Agent.BackupLifecycle,
        lifecycle.map Agent.BackupLifecycle.toRemote = sent →
        Delivered server fold plan agent lifecycle := by
  unfold sentLifecycle at h
  unfold Delivered
  cases hplan : plan.remoteLifecycle with
  | none =>
      rw [hplan] at h
      cases h
      refine ⟨by simp, ?_⟩
      intro lifecycle hlifecycle
      simpa using hlifecycle
  | some value =>
      rw [hplan] at h
      simp only [bind_eq_ok] at h
      obtain ⟨full, hfull, h⟩ := h
      have hready := materializedLifecycle_ready hfull
      split at h
      · next hlegacy =>
          obtain ⟨down, hdown, rfl⟩ := map_eq_ok.mp h
          obtain ⟨hdownReady, hhooks, hdatabases⟩ := downgraded_cases hready hdown
          have hone : (lifecycleDatabases full).length ≤ 1 :=
            length_materializedLifecycle hfull
              (assertSupportedPlan_cases hsupported hplan hagent hlegacy)
          refine ⟨fun lifecycle hlifecycle => Option.some.inj hlifecycle ▸ hdownReady, ?_⟩
          intro lifecycle hlifecycle
          obtain ⟨parsed, rfl, rfl⟩ := Option.map_eq_some_iff.mp hlifecycle
          refine ⟨full, parsed, hfull, rfl, ?_, hhooks⟩
          rw [hdatabases, List.take_of_length_le (by simpa using hone)]
          simp [sentEntry, hlegacy]
      · next hcurrent =>
          cases h
          refine ⟨fun lifecycle hlifecycle => Option.some.inj hlifecycle ▸ hready, ?_⟩
          intro lifecycle hlifecycle
          obtain ⟨parsed, rfl, rfl⟩ := Option.map_eq_some_iff.mp hlifecycle
          refine ⟨_, parsed, hfull, rfl, ?_, rfl⟩
          have hsame : sentEntry agent = id := by
            funext db
            simp [sentEntry, hcurrent]
          rw [hsame, List.map_id]

/-! ## The payload -/

@[simp] theorem envelopeVersion_none :
    envelopeVersion excludes none = if excludes.isEmpty then 1 else 4 := by
  unfold envelopeVersion
  cases excludes.isEmpty <;> rfl

@[simp] theorem envelopeVersion_some {lifecycle : RemoteLifecycle} :
    envelopeVersion excludes (some lifecycle) =
      if excludes.isEmpty then if lifecycle.isSingle then 2 else 3 else 4 := by
  unfold envelopeVersion
  cases excludes.isEmpty <;> rfl

theorem parse_lifecycle {value : Json.Fields} (hready : ∀ lifecycle ∈ sent, lifecycle.Ready fold)
    (hfield : Json.field value "lifecycle" = sent.map RemoteLifecycle.toJson) :
    ∃ parsed, readLifecycle fold (envelopeVersion excludes sent) value = .ok parsed ∧
      incompatible (envelopeVersion excludes sent) parsed = false ∧
      parsed.map Agent.BackupLifecycle.toRemote = sent := by
  cases sent with
  | none =>
      refine ⟨none, ?_, rfl, rfl⟩
      unfold readLifecycle
      rw [hfield, envelopeVersion_none]
      cases excludes.isEmpty <;> rfl
  | some lifecycle =>
      obtain ⟨parsed, hparse, hsame⟩ := parseBackupLifecycle_toJson (hready lifecycle rfl)
      have hversion : parsed.isSingle = lifecycle.isSingle := by
        rw [← hsame]
        cases parsed <;> rfl
      refine ⟨some parsed, ?_, ?_, by rw [Option.map_some, hsame]⟩
      · unfold readLifecycle
        rw [hfield, Option.map_some, hparse, envelopeVersion_some]
        cases excludes.isEmpty <;> cases lifecycle.isSingle <;> rfl
      · unfold incompatible
        rw [Option.any_some, hversion, envelopeVersion_some]
        cases excludes.isEmpty <;> cases lifecycle.isSingle <;> rfl

theorem parse_excludes
    (h : excludes.isEmpty = false →
      ∃ parsed, parseBackupExclusions letter (some (Json.texts excludes)) = .ok parsed) :
    ∃ parsed, readExcludes letter (envelopeVersion excludes sent)
      (some (Json.texts excludes)) = .ok parsed := by
  unfold readExcludes
  cases hempty : excludes.isEmpty with
  | false => cases sent <;> simpa [hempty] using h hempty
  | true =>
      rw [List.isEmpty_iff.mp hempty]
      refine ⟨[], ?_⟩
      cases sent with
      | none => rfl
      | some lifecycle =>
          rw [envelopeVersion_some]
          cases lifecycle.isSingle <;> rfl

/-- The payload has no field that the parser does not expect for its version. -/
theorem payloadOf_keys (hversion : materials.agent.agentVersion = AGENT_VERSION) :
    Json.hasOther (payloadKeys (payloadOf records materials))
      (payloadOf records materials) = false := by
  have hdiagnostics : supportsSourceDiagnostics AGENT_VERSION = false := by decide +kernel
  unfold payloadOf payloadKeys versionAmong
  rw [hversion, hdiagnostics]
  cases materials.lifecycle with
  | none => simp
  | some lifecycle =>
      by_cases hempty : materials.excludes = [] <;> cases hsingle : lifecycle.isSingle <;>
        simp [List.find?, hempty, hsingle]

theorem payloadVersion_payloadOf :
    payloadVersion (payloadOf records materials) =
      .ok (envelopeVersion materials.excludes materials.lifecycle) := by
  unfold payloadVersion versionAmong payloadOf
  cases materials.lifecycle with
  | none => by_cases hempty : materials.excludes = [] <;> simp [List.find?, hempty]
  | some lifecycle =>
      by_cases hempty : materials.excludes = [] <;> cases hsingle : lifecycle.isSingle <;>
        simp [List.find?, hempty, hsingle]

/-- What the checks of `prepareMaterials` established. -/
structure Prepared (fold : String → String) (letter : Char → Bool) (server : Server cryptr)
    (records : ManagedRecords cryptr) (materials : Materials) : Prop where
  agent : getCapableAgent server records.plan.sourceId = .ok materials.agent
  lifecycle : (∀ lifecycle ∈ materials.lifecycle, lifecycle.Ready fold) ∧
    ∀ lifecycle : Option Agent.BackupLifecycle,
      lifecycle.map Agent.BackupLifecycle.toRemote = materials.lifecycle →
      Delivered server fold records.plan materials.agent lifecycle
  sourcePath : Plain 4096 materials.sourcePath
  excludes : materials.excludes.isEmpty = false →
    ∃ parsed, parseBackupExclusions letter (some (Json.texts materials.excludes)) = .ok parsed
  storagePath : Plain 4096 records.repository.storagePath ∧
    hasTraversal records.repository.storagePath = false
  rclone : SafeOptions materials.rclone
  password : Plain 512 materials.repositoryPassword ∧ 20 ≤ Js.length materials.repositoryPassword

theorem prepareMaterials_cases {agentId : String}
    (h : prepareMaterials server fold letter agentId records = .ok materials) :
    Prepared fold letter server records materials := by
  unfold prepareMaterials at h
  simp only [bind_eq_ok, pure_eq_ok, during_eq_ok] at h
  obtain ⟨_, -, _, -, _, hsupported, _, hpath, rclone, hrclone, password, hpassword,
    source, hsource, excludes,
    hexcludes, _, -, agent, hagent, lifecycle, hlifecycle, rfl⟩ := h
  exact { agent := hagent
          lifecycle := sentLifecycle_cases hlifecycle hsupported hagent
          sourcePath := getSingleSource_cases hsource
          excludes := getSafeExcludes_cases hexcludes
          storagePath := validateStoragePath_cases hpath
          rclone := materializeSftpStorage_cases hrclone
          password := decryptRepositoryPassword_cases hpassword }

theorem parse_payloadOf (h : Prepared fold letter server records materials)
    (hversion : materials.agent.agentVersion = AGENT_VERSION) :
    ∃ parsed, parseBackupFilesystemPayload fold letter (payloadOf records materials) = .ok parsed ∧
      Delivered server fold records.plan materials.agent parsed.lifecycle := by
  have hfield : Json.field (payloadOf records materials) "lifecycle" =
      materials.lifecycle.map RemoteLifecycle.toJson := by simp [payloadOf]
  obtain ⟨lifecycle, hlifecycle, hcompatible, hsame⟩ := parse_lifecycle h.lifecycle.1 hfield
  obtain ⟨excludes, hexcludes⟩ := parse_excludes h.excludes
  refine ⟨⟨envelopeVersion materials.excludes materials.lifecycle, lifecycle,
    records.backup.id.text,
    records.plan.id.text, materials.sourcePath, excludes,
    ⟨records.repository.storagePath, records.repository.initializedAt.isNone⟩, materials.rclone,
    materials.repositoryPassword⟩, ?_, h.lifecycle.2 lifecycle hsame⟩
  have hkeys := @payloadOf_keys _ records _ hversion
  have hrepository :
      asRecord (Json.field (payloadOf records materials) "repository") "Repository configuration" =
      .ok [("remoteName", .str "pluton"), ("path", .str records.repository.storagePath),
        ("initialize", .bool records.repository.initializedAt.isNone)] := by
          simp [payloadOf, asRecord]
  have hrclone :
      asRecord (Json.field (payloadOf records materials) "rclone") "Rclone configuration" =
      .ok [("type", .str "sftp"), ("options", toObject materials.rclone)] := by
        simp [payloadOf, asRecord]
  unfold parseBackupFilesystemPayload
  simp only [bind_eq_ok, refuseIf_eq_ok, pure_eq_ok]
  refine ⟨(), hkeys, _, payloadVersion_payloadOf, _, hrepository, _, hrclone, _, ?_, (), ?_,
    materials.repositoryPassword, ?_, (), ?_,
    lifecycle, hlifecycle, (), hcompatible, records.backup.id.text, ?_, records.plan.id.text, ?_,
    materials.sourcePath, ?_, excludes, ?_, records.repository.storagePath, ?_,
    materials.rclone, ?_, rfl⟩
  · simp [readInitializes]
  · simp
  · simpa [payloadOf] using requiredString_str h.password.1
  · simpa using h.password.2
  · simpa [payloadOf] using validateId_uid records.backup.id "Backup ID"
  · simpa [payloadOf] using validateId_uid records.plan.id "Plan ID"
  · simpa [payloadOf] using requiredString_str h.sourcePath
  · simpa [payloadOf] using hexcludes
  · unfold validateRepositoryPath
    simp only [bind_eq_ok, refuseIf_eq_ok, pure_eq_ok]
    refine ⟨records.repository.storagePath, ?_, (), h.storagePath.2, rfl⟩
    simpa using requiredString_str (h.storagePath.1.mono (by decide))
  · simpa using validateRcloneOptions_toObject h.rclone

/-- The agent that the command goes to runs the version of this repository. -/
def RunsThisVersion (server : Server cryptr) (command : AgentCommand) : Prop :=
  ∀ reference plan agent, commandReference command.payload = .ok reference →
    server.planById reference.planId = some plan →
    server.agentByDeviceId plan.sourceId = some agent →
      agent.agentVersion = AGENT_VERSION

theorem getCapableAgent_cases {deviceId : String}
    (h : getCapableAgent server deviceId = .ok agent) :
    server.agentByDeviceId deviceId = some agent := by
  unfold getCapableAgent at h
  split at h
  · cases h
  · next found hfound =>
      simp only [bind_eq_ok, refuseIf_eq_ok, pure_eq_ok] at h
      obtain ⟨_, -, _, -, rfl⟩ := h
      exact hfound

theorem materializeCommand_cases {agentId : String} {command : AgentCommand} {payload : Json.Fields}
    (htype : command.type = "BACKUP_FILESYSTEM")
    (h : materializeCommand server fold letter agentId command = .ok payload) :
    ∃ reference records materials, commandReference command.payload = .ok reference ∧
      server.planById reference.planId = some records.plan ∧
      Prepared fold letter server records materials ∧ payload = payloadOf records materials := by
  unfold materializeCommand at h
  simp only [htype, bne_self_eq_false, Bool.false_eq_true, if_false, bind_eq_ok,
    mapError_eq_ok, pure_eq_ok] at h
  obtain ⟨reference, hreference, records, hrecords, materials, hmaterials, rfl⟩ := h
  refine ⟨reference, records, materials, ?_, ?_, prepareMaterials_cases hmaterials, rfl⟩
  · unfold readReference at hreference
    simp only [bind_eq_ok, during_eq_ok] at hreference
    exact hreference.choose_spec.2
  · unfold loadRecords at hrecords
    split at hrecords
    · next hplan _ =>
        simp only [bind_eq_ok, pure_eq_ok] at hrecords
        obtain ⟨_, -, rfl⟩ := hrecords
        exact hplan
    · cases hrecords

end

/-- The agent of this repository accepts every payload that the server materialises for it,
and has the databases and the hooks of the plan. -/
theorem materialized_payload_accepted {cryptr : Cryptr} (server : Server cryptr)
    (fold : String → String) (letter : Char → Bool) (agentId : String) (command : AgentCommand)
    (payload : Json.Fields) (htype : command.type = "BACKUP_FILESYSTEM")
    (hversion : RunsThisVersion server command)
    (h : materializeCommand server fold letter agentId command = .ok payload) :
    ∃ reference plan agent parsed, commandReference command.payload = .ok reference ∧
      server.planById reference.planId = some plan ∧
      server.agentByDeviceId plan.sourceId = some agent ∧
      parseBackupFilesystemPayload fold letter payload = .ok parsed ∧
      Delivered server fold plan agent parsed.lifecycle := by
  obtain ⟨reference, records, materials, hreference, hplan, hprepared, rfl⟩ :=
    materializeCommand_cases htype h
  have hagent := getCapableAgent_cases hprepared.agent
  obtain ⟨parsed, hparsed, hdelivered⟩ :=
    parse_payloadOf hprepared
      (hversion reference records.plan materials.agent hreference hplan hagent)
  exact ⟨reference, records.plan, materials.agent, parsed, hreference, hplan, hagent,
    hparsed, hdelivered⟩

/-! ## A plan with two databases and exclusions -/

def exampleAgent : AgentIdentity where
  agentId := "agent-1"
  agentVersion := AGENT_VERSION
  resticVersion := some "0.18.0"
  rcloneVersion := some "v1.70.0"
  revokedAt := none
  lastSeen := some 0
  capabilities :=
    { filesystemRootsConfigured := true
      commandTypes := ["BACKUP_FILESYSTEM"]
      backupExclusionsVersion := some 1
      backupLifecycleVersion := some 2
      databaseEngines := some ["mysql", "postgresql"]
      hooksConfigured := some true
      sourceAccessVersion := none }

def exampleSource : PlanSource := ⟨["/srv/data"], some ["*.tmp", "cache/**"]⟩

/-- Two entries that differ in id, engine and artifact. -/
def exampleDatabases : List RemoteDatabase :=
  [exampleEntry (some "db_one") .mysql none,
    { exampleEntry (some "db_two") .postgresql none with dumpFilename := "second.sql" }]

def examplePlan : Plan where
  id := ⟨"a1b2c3d4e5f6", by decide +kernel⟩
  sourceId := "remote-1"
  sourceType := "device"
  sourceConfig := exampleSource
  method := "backup"
  storageId := "storage-1"
  storagePath := some "backups/a"
  encryption := true
  scripts := []
  replication := none
  remoteLifecycle := some (.collection exampleDatabases ⟨some ⟨"quiesce", ["fast"], 30⟩, none⟩)

def exampleBackup : Backup where
  id := ⟨"000000000001", by decide +kernel⟩
  planId := "a1b2c3d4e5f6"
  sourceId := "remote-1"
  inProgress := true
  status := "queued"
  sourceConfig := some exampleSource

def exampleRepository : ManagedRepository markCryptr where
  planId := "a1b2c3d4e5f6"
  agentId := "agent-1"
  storageId := "storage-1"
  storagePath := "backups/a"
  encryptedPassword := "*" ++ base64url (List.replicate 32 7)
  initializedAt := none
  created := ⟨0, List.replicate 32 7, rfl, rfl⟩

def exampleServer : Server markCryptr where
  repositoryById _ := some exampleRepository
  planById _ := some examplePlan
  backupById _ := some exampleBackup
  storageById _ := some ⟨"sftp", [("pass", .text "*obscured")],
    [("host", .text "backup.internal"), ("user", .text "pluton"), ("port", .number "22" false rfl)]⟩
  agentByDeviceId _ := some exampleAgent
  databaseCredential _ := none
  databaseCredentials _ := [⟨"db_one", "*first", false⟩, ⟨"db_two", "*second", false⟩]
  validateReplicas := none
  sourceAccess := none
  now := 0
  offlineTimeoutMs := 90000

def exampleCommand : AgentCommand where
  agentId := "agent-1"
  type := "BACKUP_FILESYSTEM"
  payload :=
    [("backupId", .str "000000000001"), ("planId", .str "a1b2c3d4e5f6"), ("repositoryId", .str "r")]

theorem materialized_payload_accepted_of_two_databases :
    ∃ payload, materializeCommand exampleServer id Char.isAlphanum
      "agent-1" exampleCommand = .ok payload ∧
      ∃ reference plan agent parsed, commandReference exampleCommand.payload = .ok reference ∧
        exampleServer.planById reference.planId = some plan ∧
        exampleServer.agentByDeviceId plan.sourceId = some agent ∧
        parseBackupFilesystemPayload id Char.isAlphanum payload = .ok parsed ∧
        Delivered exampleServer id plan agent parsed.lifecycle := by
  have hok : (materializeCommand exampleServer id Char.isAlphanum "agent-1" exampleCommand).isOk =
      true := by
    decide +kernel
  cases hpayload : materializeCommand exampleServer id Char.isAlphanum "agent-1" exampleCommand with
  | error refusal =>
      rw [hpayload] at hok
      cases hok
  | ok payload =>
      refine ⟨payload, rfl,
        materialized_payload_accepted exampleServer id Char.isAlphanum "agent-1" exampleCommand
        payload rfl ?_ hpayload⟩
      intro reference plan agent _ _ hagent
      obtain rfl : exampleAgent = agent := Option.some.inj hagent
      rfl

end Pluton.Envelope
