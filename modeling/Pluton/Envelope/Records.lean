-- SUMMARY: The server's records that a backup command refers to, and the versions agents report.
import Pluton.Envelope.Exclusions
import Pluton.Lifecycle.Remote

/-!
# Records of a managed plan

What `materializeCommand` loads from the stores. Ids are drawn with `generateUID` and
the password of a repository by `createManagedPlan`; the types keep what that says of
their format.
-/
namespace Pluton.Envelope

open Lifecycle

/-! ## What is drawn -/

/-- `generateUID()` -/
structure Uid where
  text : String
  format : text.toList.length = 12 ∧ text.toList.all (fun ch => ch.isDigit || ch.isLower) = true

def base64Digit (n : Nat) : Char :=
  "ABCDEFGHIJKLMNOPQRSTUVWXYZabcdefghijklmnopqrstuvwxyz0123456789-_".toList.getD n 'A'

def base64Chars : List UInt8 → List Char
  | a :: b :: c :: rest =>
      let n := a.toNat * 65536 + b.toNat * 256 + c.toNat
      base64Digit (n / 262144) :: base64Digit (n / 4096 % 64) :: base64Digit (n / 64 % 64) ::
        base64Digit (n % 64) :: base64Chars rest
  | [a, b] =>
      let n := a.toNat * 256 + b.toNat
      [base64Digit (n / 1024), base64Digit (n / 16 % 64), base64Digit (n % 16 * 4)]
  | [a] => [base64Digit (a.toNat / 4), base64Digit (a.toNat % 4 * 16)]
  | [] => []

/-- `bytes.toString('base64url')` -/
def base64url (bytes : List UInt8) : String := String.ofList (base64Chars bytes)

/-! ## Plans, backups and repositories -/

structure PlanSource where
  includes : List String
  excludes : Option (List String)

structure Replication where
  enabled : Bool
  storages : List String

/-- `scripts` lists the scripts of each event. -/
structure Plan where
  id : Uid
  sourceId : String
  sourceType : String
  sourceConfig : PlanSource
  method : String
  storageId : String
  storagePath : Option String
  encryption : Bool
  scripts : List (String × List String)
  replication : Option Replication
  remoteLifecycle : Option RemoteLifecycle

structure Backup where
  id : Uid
  planId : String
  sourceId : String
  inProgress : Bool
  status : String
  sourceConfig : Option PlanSource

/-- The password is thirty-two random bytes, encrypted when the plan was created. -/
structure ManagedRepository (cryptr : Cryptr) where
  planId : String
  agentId : String
  storageId : String
  storagePath : String
  encryptedPassword : String
  initializedAt : Option Nat
  created : ∃ salt bytes, bytes.length = 32 ∧
    encryptedPassword = cryptr.encrypt salt (base64url bytes)

/-- A value of a storage form: a number as `String` prints it, or something else. -/
inductive StorageValue where
  | text (value : String)
  | number (printed : String) (zero : Bool) (nonempty : printed.isEmpty = false)
  | bool (value : Bool)
  | other

structure Storage where
  type : String
  credentials : List (String × StorageValue)
  settings : List (String × StorageValue)

/-! ## Agents -/

structure Capabilities where
  filesystemRootsConfigured : Bool
  commandTypes : List String
  backupExclusionsVersion : Option Nat
  backupLifecycleVersion : Option Nat
  databaseEngines : Option (List String)
  hooksConfigured : Option Bool
  sourceAccessVersion : Option Nat

structure AgentIdentity where
  agentId : String
  agentVersion : String
  resticVersion : Option String
  rcloneVersion : Option String
  revokedAt : Option Nat
  lastSeen : Option Nat
  capabilities : Capabilities

/-- The version of the agent in this repository. -/
def AGENT_VERSION : String := "0.7.0"

/-- `(\d+)` -/
def number (chars : List Char) : Option (Nat × List Char) :=
  let digits := chars.takeWhile Char.isDigit
  if digits.isEmpty then none
  else some (digits.foldl (fun n ch => 10 * n + (ch.toNat - 48)) 0, chars.dropWhile Char.isDigit)

/-- `\.` -/
def dot : List Char → Option (List Char)
  | '.' :: rest => some rest
  | _ => none

/-- `/^v?(\d+)\.(\d+)\.(\d+)/`: the numbers and what comes after them. -/
def versionMatch (text : String) : Option ((Nat × Nat × Nat) × List Char) := do
  let chars := if Js.startsWith "v" text then text.toList.drop 1 else text.toList
  let (major, rest) ← number chars
  let rest ← dot rest
  let (minor, rest) ← number rest
  let rest ← dot rest
  let (patch, rest) ← number rest
  return ((major, minor, patch), rest)

/-- At least 0.2.0. -/
def versionAtLeast (value : String) : Bool :=
  match versionMatch (Js.trim value) with
  | some ((major, minor, _), _) => 0 < major || 2 ≤ minor
  | none => false

/-- At least 0.7.1, and nothing after it. -/
def supportsSourceDiagnostics (version : String) : Bool :=
  match versionMatch version with
  | some ((major, minor, patch), []) => 0 < major || 7 < minor || (minor == 7 && 1 ≤ patch)
  | _ => false

/-! ## Formats -/

theorem base64Digit_dashed {n : Nat} (h : n < 64) : Pattern.dashed (base64Digit n) = true := by
  have hall : ∀ n < 64, Pattern.dashed (base64Digit n) = true := by decide +kernel
  exact hall n h

theorem base64Chars_dashed (bytes : List UInt8) :
    ∀ ch ∈ base64Chars bytes, Pattern.dashed ch = true := by
  fun_induction base64Chars bytes with
  | case1 a b c rest n ih =>
      have ha := a.toNat_lt
      have hb := b.toNat_lt
      have hc := c.toNat_lt
      simp only [List.forall_mem_cons]
      refine ⟨?_, ?_, ?_, ?_, ih⟩
      all_goals
        apply base64Digit_dashed
        omega
  | case2 a b n =>
      have ha := a.toNat_lt
      have hb := b.toNat_lt
      simp only [List.forall_mem_cons, List.not_mem_nil, false_imp_iff, implies_true, and_true]
      refine ⟨?_, ?_, ?_⟩
      all_goals
        apply base64Digit_dashed
        omega
  | case3 a =>
      have ha := a.toNat_lt
      simp only [List.forall_mem_cons, List.not_mem_nil, false_imp_iff, implies_true, and_true]
      refine ⟨?_, ?_⟩
      all_goals
        apply base64Digit_dashed
        omega
  | case4 => simp

theorem length_base64Chars (bytes : List UInt8) :
    (base64Chars bytes).length = (4 * bytes.length + 2) / 3 := by
  fun_induction base64Chars bytes with
  | case1 a b c rest n ih =>
      simp only [List.length_cons, ih]
      omega
  | case2 a b n => simp
  | case3 a => simp
  | case4 => rfl

/-- A password is forty-three characters of `[A-Za-z0-9_-]`. -/
theorem ManagedRepository.password_format {cryptr : Cryptr}
    (repository : ManagedRepository cryptr) :
    ∃ password, cryptr.decrypt repository.encryptedPassword = some password ∧
      password.toList.length = 43 ∧ ∀ ch ∈ password.toList, Pattern.dashed ch = true := by
  obtain ⟨salt, bytes, hlength, hencrypted⟩ := repository.created
  refine ⟨base64url bytes, ?_, ?_, ?_⟩
  · rw [hencrypted, cryptr.decrypt_encrypt]
  · rw [base64url, String.toList_ofList, length_base64Chars, hlength]
  · rw [base64url, String.toList_ofList]
    exact base64Chars_dashed bytes

end Pluton.Envelope
