-- SUMMARY: Source roots as paths: which are admitted, what covers what, which are never granted.
import Pluton.Posix

/-!
# Source paths

The lexical part of `agent/src/sourceAccessPolicy.ts`. A root covers itself and what
lies below it; the roots of one list do not cover each other.
-/
namespace Pluton.SourceAccess

/-- The codes of `SourcePolicyError`, and those that `safeCode` gives to other errors. -/
inductive Code where
  | requestInvalid
  | rootsOverlap
  | policyLinuxRequired
  | hostPolicyBusy
  | hostPolicyInvalid
  | hostPolicyNotProtected
  | policyStateInvalid
  | rootLimit
  | policyDurabilityUncertain
  | policyStale
  | policyChanged
  | policyVersionExhausted
  | policyUnavailable
  | sensitiveRoot
  | hostApprovalRevoked
  | hostApprovalChanged
  | hostApprovalRequired
  | hostOperatorRequired
  | outsideDelegatedScope
  | pathRejected
  | canonicalPathRequired
  | alreadyHostApproved
  | staticRootRequiresLocalConfig
  | symlinkChanged
  | unsupportedType
  | missing
  | rootNotReadable
  | commandLeaseExpired
  | modeConfirmationRequired
  | modeSetupInvalid
  | modeSetupExpired
  | recoveryReviewRequired
  deriving DecidableEq

/-- `MAX_ROOTS` -/
def maxRoots : Nat := 32

/-- `MAX_PATH` -/
def maxPath : Nat := 1024

/-- `DENIED_ROOTS` -/
def deniedRoots : List String :=
  ["/", "/home", "/srv", "/var", "/var/www", "/opt", "/mnt", "/media", "/run", "/usr", "/usr/local",
    "/usr/share", "/usr/lib", "/bin", "/sbin", "/lib", "/lib64", "/var/lib",
    "/var/log", "/var/cache", "/tmp", "/var/tmp", "/run/user", "/lost+found"]

/-- `DENIED_TREES` -/
def deniedTrees : List String :=
  ["/etc", "/proc", "/sys", "/dev", "/boot", "/root", "/var/lib/pluton-agent", "/opt/pluton-agent",
    "/var/lib/pluton-agent-upgrades"]

def sourcePathWithin (root candidate : String) : Bool :=
  candidate == root || Js.startsWith (if root == "/" then "/" else root ++ "/") candidate

/-- `/[\x00-\x1f\x7f\\,]/` -/
def isRefused (ch : Char) : Bool :=
  ch.toNat ≤ 0x1f || ch.toNat == 0x7f || ch == '\\' || ch == ','

/-- An absolute path in its normal form. -/
def isSourcePath (entry : String) : Bool :=
  Js.startsWith "/" entry && !Js.startsWith "//" entry &&
    (entry == "/" || !Js.endsWith "/" entry) &&
    Js.length entry ≤ maxPath && !entry.toList.any isRefused &&
    !(Js.split '/' entry).any (fun part => part == "." || part == "..") &&
    Posix.normalize entry == entry

def validateSourcePaths (value : List String) (allowEmpty : Bool) : Except Code (List String) :=
  if value.length > maxRoots || (!allowEmpty && value.isEmpty) then .error .requestInvalid
  else if value.all isSourcePath then .ok value
  else .error .requestInvalid

def isNewSourceRootAllowed (candidate : String) : Bool :=
  !deniedRoots.contains candidate && !deniedTrees.any (sourcePathWithin · candidate)

/-- No root covers another one, and none is there twice. -/
def nonoverlapping : List String → Bool
  | [] => true
  | root :: roots =>
    roots.all (fun other => !sourcePathWithin root other && !sourcePathWithin other root) &&
      nonoverlapping roots

def assertNonoverlappingRoots (roots : List String) : Except Code Unit :=
  if nonoverlapping roots then .ok () else .error .rootsOverlap

def sourcePathContainsPrivateDirectory (candidate : String) : Bool :=
  (Js.split '/' candidate).any fun part => [".ssh", ".aws", ".gnupg", ".kube"].contains part

theorem sourcePathWithin_self (root : String) : sourcePathWithin root root = true := by
  simp [sourcePathWithin]

theorem nodup_of_nonoverlapping {roots : List String} (h : nonoverlapping roots = true) :
    roots.Nodup := by
  induction roots with
  | nil => exact List.nodup_nil
  | cons root roots ih =>
      simp only [nonoverlapping, Bool.and_eq_true, List.all_eq_true] at h
      refine List.nodup_cons.mpr ⟨fun hmem => ?_, ih h.2⟩
      have hself := (h.1 root hmem).1
      rw [sourcePathWithin_self] at hself
      cases hself

end Pluton.SourceAccess
