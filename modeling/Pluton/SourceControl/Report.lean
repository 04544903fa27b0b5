-- SUMMARY: The source access reports of an Agent: which are accepted, when one is healthy.
import Pluton.Pattern
import Pluton.Posix

/-!
# Source access reports

`backend/src/utils/agentSourceAccess.ts` and its types. A report says which roots the
host approves, which of them are in effect, and what the state of each is.
-/
namespace Pluton.SourceControl

/-! ## Reports -/

inductive AuthorizationMode where
  | hostApproved
  | serverManaged
  deriving DecidableEq

inductive RootStatus where
  | readable
  | unreadable
  | missing
  | rejected
  deriving DecidableEq

structure SourceAccessRootStatus where
  path : String
  status : RootStatus
  code : Option String := none

structure SourceAccessReport where
  authorizationMode : Option AuthorizationMode := none
  delegatedRoots : Option (List String) := none
  lastModeSetupRequestId : Option String := none
  hostPolicyRevision : String
  effectiveVersion : Nat
  approvedRoots : List String
  effectiveRoots : List String
  rootStatuses : List SourceAccessRootStatus
  lastAppliedRequestId : Option String := none
  policyError : Option String := none

/-- A field that is a text and not the empty one. -/
def given (field : Option String) : Option String := field.filter (· != "")

theorem given_some {text : String} (h : text ≠ "") : given (some text) = some text := by
  simp [given, Option.filter, h]

namespace SourceAccessReport

variable (report : SourceAccessReport)

def mode : AuthorizationMode := report.authorizationMode.getD .hostApproved

def delegated : List String := report.delegatedRoots.getD []

def paths : List String := report.rootStatuses.map (·.path)

end SourceAccessReport

/-! ## Paths -/

/-- `SOURCE_ACCESS_MAX_ROOTS` -/
def maxRoots : Nat := 32

/-- `SOURCE_ACCESS_MAX_PATH_LENGTH` -/
def maxPathLength : Nat := 1024

def isSafeSourceAccessPath (value : String) : Bool :=
  Js.startsWith "/" value && Js.length value ≤ maxPathLength && !Js.includes '\\' value &&
    !Js.includes ',' value &&
    !decide (['/', '/'] <:+: value.toList) && (value == "/" || !Js.endsWith "/" value) &&
    !value.toList.any (fun character => character.toNat ≤ 0x1f || character.toNat == 0x7f) &&
    !(Js.split '/' value).any fun part => part == ".." || part == "."

def sourcePathWithin (root candidate : String) : Bool :=
  candidate == root || Js.startsWith (if root == "/" then "/" else root ++ "/") candidate

def isCanonicalSourcePath (value : String) : Bool :=
  isSafeSourceAccessPath value && Posix.normalize value == value

theorem sourcePathWithin_self (root : String) : sourcePathWithin root root = true := by
  simp [sourcePathWithin]

/-- `[...roots].sort()` -/
def sorted (roots : List String) : List String :=
  roots.insertionSort fun a b => Js.codeUnits a ≤ Js.codeUnits b

def sameSourceRoots (left right : List String) : Bool :=
  left.length == right.length && sorted left == sorted right

theorem sameSourceRoots_self (roots : List String) : sameSourceRoots roots roots = true := by
  simp [sameSourceRoots]

theorem sameSourceRoots_symm {left right : List String} (h : sameSourceRoots left right = true) :
    sameSourceRoots right left = true := by
  simp only [sameSourceRoots, Bool.and_eq_true, beq_iff_eq] at h ⊢
  exact ⟨h.1.symm, h.2.symm⟩

theorem perm_of_sameSourceRoots {left right : List String} (h : sameSourceRoots left right = true) :
    left.Perm right := by
  simp only [sameSourceRoots, Bool.and_eq_true, beq_iff_eq] at h
  have hleft := List.perm_insertionSort (fun a b => Js.codeUnits a ≤ Js.codeUnits b) left
  have hright := List.perm_insertionSort (fun a b => Js.codeUnits a ≤ Js.codeUnits b) right
  have hsorted : left.insertionSort (fun a b => Js.codeUnits a ≤ Js.codeUnits b) =
      right.insertionSort fun a b => Js.codeUnits a ≤ Js.codeUnits b := h.2
  rw [hsorted] at hleft
  exact hleft.symm.trans hright

/-! ## Acceptance -/

/-- `sourceAccessIdSchema` -/
def isId (text : String) : Bool :=
  Pattern.headed Pattern.dashed Pattern.dashed text && Js.length text ≤ 160

/-- `[a-z0-9]` -/
def codeChar (ch : Char) : Bool := ch.isLower || ch.isDigit

/-- `sourceAccessCodeSchema` -/
def isCode (text : String) : Bool :=
  (text.toList.head?.any Char.isLower) &&
    ((Js.split '-' text).all fun part => Pattern.headed codeChar codeChar part) &&
    Js.length text ≤ 96

/-- `/^[a-f0-9]{64}$/` -/
def isRevision (text : String) : Bool :=
  text.toList.length == 64 && text.toList.all fun ch => ch.isDigit || ('a' ≤ ch && ch ≤ 'f')

def canonicalRootsSchema (roots : List String) : Bool :=
  roots.all isCanonicalSourcePath && roots.length ≤ maxRoots && roots.Nodup

/-- The fields of a report, each on its own. -/
def fieldsAccepted (report : SourceAccessReport) : Bool :=
  report.delegatedRoots.all canonicalRootsSchema && report.lastModeSetupRequestId.all isId &&
    isRevision report.hostPolicyRevision && report.effectiveVersion ≤ Js.maxSafeInteger &&
    canonicalRootsSchema report.approvedRoots && canonicalRootsSchema report.effectiveRoots &&
    report.rootStatuses.all (fun root => isCanonicalSourcePath root.path && root.code.all isCode) &&
    report.rootStatuses.length ≤ maxRoots && report.lastAppliedRequestId.all isId &&
    report.policyError.all isCode

/-- The fields of a report beside each other. -/
def fieldsAgree (report : SourceAccessReport) : Bool :=
  let managed := report.authorizationMode == some .serverManaged
  (managed || report.delegated.isEmpty) &&
    (report.approvedRoots ++ report.delegated).dedup.length ≤ maxRoots &&
    report.effectiveRoots.all (fun root =>
      (report.approvedRoots ++ if managed then report.delegated else []).any
        (sourcePathWithin · root)) &&
    report.effectiveRoots.all (fun root =>
      report.rootStatuses.any fun status => status.path == root && status.status == .readable) &&
    report.paths.Nodup

def sourceAccessReportSchema (report : SourceAccessReport) : Bool :=
  fieldsAccepted report && fieldsAgree report

/-- A report that was parsed. -/
structure AcceptedReport extends SourceAccessReport where
  accepted : sourceAccessReportSchema toSourceAccessReport = true

theorem AcceptedReport.effective_mem (report : AcceptedReport) {root : String}
    (h : root ∈ report.effectiveRoots) :
    root ∈ report.paths := by
  have hagree : fieldsAgree report.toSourceAccessReport = true :=
    (Bool.and_eq_true_iff.mp report.accepted).2
  simp only [fieldsAgree, Bool.and_eq_true, List.all_eq_true, List.any_eq_true,
    beq_iff_eq] at hagree
  obtain ⟨status, hmem, hpath, -⟩ := hagree.1.2 root h
  exact List.mem_map.mpr ⟨status, hmem, hpath⟩

/-- An identifier in a report is not the empty text. -/
theorem AcceptedReport.given_lastApplied (report : AcceptedReport) {id : String}
    (h : report.lastAppliedRequestId = some id) :
    given report.lastAppliedRequestId = some id := by
  have hfields : fieldsAccepted report.toSourceAccessReport = true :=
    (Bool.and_eq_true_iff.mp report.accepted).1
  simp only [fieldsAccepted, Bool.and_eq_true, h, Option.all_some] at hfields
  rw [h]
  refine given_some fun hempty => ?_
  rw [hempty] at hfields
  exact absurd hfields.1.2 (by decide)

def sourceReportHealthy (report : SourceAccessReport) : Bool :=
  (given report.policyError).isNone &&
    report.effectiveRoots.all fun root =>
      !report.rootStatuses.any fun status => status.path == root && status.status != .readable

end Pluton.SourceControl
