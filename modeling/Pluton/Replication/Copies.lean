-- SUMMARY: A replica copy creates and fills only a repository that it owns.
import Pluton.Replication.Destinations
import Pluton.Replication.Executor

/-!
# What a copy does to the destination

Two commands change a repository: `init` and `copy`. The history of a call is safe
when each of them was allowed by what had happened before it.
-/
namespace Pluton.Replication.Executor

open EStateM
open Namespaces (fullId)

def Act.mutates : Act → Bool
  | ran (.init _ _) _ => true
  | ran (.copy _ _ _) _ => true
  | _ => false

/-- Since `log` nothing was asked for that changes a repository. -/
def Reads (log log' : List Act) : Prop :=
  ∃ acts, log' = log ++ acts ∧ ∀ act ∈ acts, act.mutates = false

/-- The last thing the call did was to read the id of the destination. -/
def ReadNow (env : Env) (path repositoryId : String) (log : List Act) : Prop :=
  ∃ earlier output, log = earlier ++ [.ran (.catConfig .destination path) (.ok output)] ∧
    parseOption env configSchema output = some repositoryId

/-- The last things the call did were to create the destination, read its id and bind it. -/
def BoundNow (env : Env) (path repositoryId : String) (log : List Act) : Prop :=
  ∃ earlier sourcePath created output, parseOption env configSchema output = some repositoryId ∧
    log = earlier ++ [.ran (.init path sourcePath) (.ok created),
      .ran (.catConfig .destination path) (.ok output), .bound repositoryId (.ok ())]

/-- The last things the call did were to list the destination, which was empty, and to
have the store note what follows. -/
def EmptyNow (path : String) (log : List Act) : Prop :=
  ∃ earlier listing, log = earlier ++ [.ran (.lsf path) (.ok listing), .began (.ok ())] ∧
    (Js.trim listing.text).isEmpty = true

/-- The destination has an id on record, and its initialisation is not in doubt. -/
def OnRecord (state : ReplicationDestinationState) (repositoryId : String) : Prop :=
  state.repositoryConfigId = some repositoryId ∧
    (state.initialization = .ready ∨ state.initialization = .uninitialized)

def Allowed (env : Env) (input : CopyInput) (before : List Act) : Command → Prop
  | .init path _ => path = input.destination.repositoryPath ∧ EmptyNow path before
  | .copy path _ snapshotId =>
      path = input.destination.repositoryPath ∧ snapshotId = input.source.snapshotId ∧
        ∃ repositoryId, BoundNow env path repositoryId before ∨
          ReadNow env path repositoryId before ∧ OnRecord input.state repositoryId
  | _ => True

def Safe (env : Env) (input : CopyInput) (log : List Act) : Prop :=
  ∀ before cmd outcome rest, log = before ++ .ran cmd outcome :: rest → Allowed env input before cmd

variable {env : Env} {input : CopyInput} {log log' : List Act} {α β : Type}

/-! ## Histories -/

instance : Std.Refl Reads where
  refl log := ⟨[], by simp, by simp⟩

instance : IsTrans (List Act) Reads where
  trans := by
    rintro log _ _ ⟨acts, rfl, hacts⟩ ⟨acts', rfl, hacts'⟩
    refine ⟨acts ++ acts', by simp, ?_⟩
    rw [List.forall_mem_append]
    exact ⟨hacts, hacts'⟩

theorem Reads.snoc {act : Act} (h : act.mutates = false) : Reads log (log ++ [act]) :=
  ⟨[act], rfl, by simpa using h⟩

theorem Safe.nil : Safe env input [] := by
  intro before cmd outcome rest h
  simp at h

theorem Safe.snoc {act : Act} (h : Safe env input log)
    (hact : ∀ cmd outcome, act = .ran cmd outcome → Allowed env input log cmd) :
    Safe env input (log ++ [act]) := by
  intro before cmd outcome rest heq
  rcases List.eq_nil_or_concat rest with rfl | ⟨rest, last, rfl⟩
  · obtain ⟨rfl, hlast⟩ := List.append_inj' heq rfl
    exact hact cmd outcome (List.singleton_inj.mp hlast)
  · rw [List.concat_eq_append, ← List.cons_append, ← List.append_assoc] at heq
    exact h before cmd outcome rest (List.append_inj' heq rfl).1

theorem Safe.quiet {act : Act} (h : Safe env input log) (hact : act.mutates = false) :
    Safe env input (log ++ [act]) := by
  apply h.snoc
  rintro cmd outcome rfl
  cases cmd with
  | init path sourcePath => cases hact
  | copy path sourcePath snapshotId => cases hact
  | _ => trivial

theorem Safe.reads (h : Safe env input log) (hreads : Reads log log') : Safe env input log' := by
  obtain ⟨acts, rfl, hacts⟩ := hreads
  induction acts using List.reverseRecOn with
  | nil => simpa using h
  | append_singleton acts act ih =>
      rw [List.forall_mem_append] at hacts
      rw [← List.append_assoc]
      exact (ih hacts.1).quiet (hacts.2 act (List.mem_singleton_self act))

/-! ## Programs that only read -/

theorem wp_record {answer : List Act → Except Failure α} {act : Except Failure α → Act}
    {Q : α → List Act → Prop} {E : Failure → List Act → Prop} : wp (record answer act) Q E log ↔
      (∀ a, answer log = .ok a → Q a (log ++ [act (.ok a)])) ∧
        ∀ e, answer log = .error e → E e (log ++ [act (.error e)]) := by
  change wp (MonadExcept.ofExcept (answer log)) Q E (log ++ [act (answer log)]) ↔ _
  rw [wp_ofExcept]
  refine and_congr (forall_congr' fun a => ?_) (forall_congr' fun e => ?_)
  · exact ⟨fun h ha => ha ▸ h ha, fun h ha => ha ▸ h ha⟩
  · exact ⟨fun h he => he ▸ h he, fun h he => he ▸ h he⟩

theorem command_reads {cmd : Command} (h : ∀ outcome, (Act.ran cmd outcome).mutates = false) :
    Within Reads (command env cmd) := by
  intro log
  exact wp_record.mpr ⟨fun _ _ => Reads.snoc (h _), fun _ _ => Reads.snoc (h _)⟩

theorem parse_reads {schema : Json → Option α} {output : Output} :
    Within Reads (parse env schema output) := by
  unfold Executor.parse
  split
  · exact .pure
  · exact .throw

theorem assertSource_reads (source : ReplicationSource) : Within Reads (assertSource source) :=
  .bind .refuseIf fun _ => .refuseIf

theorem assertSnapshot_reads (source : ReplicationSource) (snapshot : ReplicationSnapshot)
    (exact : Bool) : Within Reads (assertSnapshot source snapshot exact) :=
  .refuseIf

theorem environment_reads (access : SftpAccess)
    (destination : Option ReplicationDestinationAccess) :
    Within Reads (environment env access destination) :=
  .bind .refuseIf fun _ => .bind (command_reads fun _ => rfl) fun _ =>
    .bind .refuseIf fun _ => .refuseIf

theorem verifyArtifact_reads (remote : Remote) (repository snapshot : String)
    (artifact : Artifact) :
    Within Reads (verifyArtifact env remote repository snapshot artifact) :=
  .bind (command_reads fun _ => rfl) fun _ => .bind .refuseIf fun _ => .refuseIf

theorem verifyArtifacts_reads (source : ReplicationSource) (remote : Remote)
    (repository snapshot : String) :
    Within Reads (verifyArtifacts env source remote repository snapshot) :=
  .forM (verifyArtifact_reads remote repository snapshot) source.artifacts

theorem readConfig_reads (remote : Remote) (repository : String) :
    Within Reads (readConfig env remote repository) :=
  .bind (command_reads fun _ => rfl) fun _ => parse_reads

theorem theSnapshot_reads (source : ReplicationSource) (rows : List ReplicationSnapshot) :
    Within Reads (theSnapshot source rows) := by
  unfold theSnapshot
  split
  · split
    · exact .pure
    · exact .throw
  · exact .throw

theorem inspectSource_reads (source : ReplicationSource) :
    Within Reads (inspectSource env source) := by
  unfold inspectSource
  refine .bind (assertSource_reads source) fun _ => ?_
  refine .bind (environment_reads _ _) fun _ => ?_
  refine .bind (readConfig_reads _ _) fun _ => ?_
  refine .bind (command_reads fun _ => rfl) fun _ => ?_
  refine Within.bind parse_reads fun _ => ?_
  refine .bind (theSnapshot_reads _ _) fun _ => ?_
  refine .bind (assertSnapshot_reads _ _ _) fun _ => ?_
  exact .bind (verifyArtifacts_reads _ _ _ _) fun _ => .pure

/-! ## Programs that may change the destination -/

theorem wp_parse {schema : Json → Option α} {output : Output} {Q : α → List Act → Prop}
    {E : Failure → List Act → Prop}
    (hsome : ∀ value, parseOption env schema output = some value → Q value log)
    (hnone : E "invalid-output" log) : wp (parse env schema output) Q E log := by
  unfold Executor.parse
  split
  · next value hvalue => exact hsome value hvalue
  · exact hnone

/-- What a program leaves safe, whichever way it ends. -/
theorem safe_of_reads {x : Exec α} (hx : Within Reads x) (h : Safe env input log) :
    wp x (fun _ => Safe env input) (fun _ => Safe env input) log :=
  (hx log).mono (fun _ _ hreads => h.reads hreads) fun _ _ hreads => h.reads hreads

theorem bind_safe {x : Exec α} {f : α → Exec β} {Q : β → List Act → Prop} (hx : Within Reads x)
    (h : Safe env input log)
    (hf : ∀ a log', Safe env input log' → wp (f a) Q (fun _ => Safe env input) log') :
    wp (x >>= f) Q (fun _ => Safe env input) log :=
  EStateM.wp.bind (safe_of_reads hx h) hf

theorem readConfig_spec {path : String} (h : Safe env input log) :
    wp (readConfig env .destination path)
      (fun repositoryId log' => Safe env input log' ∧ ∃ output,
        parseOption env configSchema output = some repositoryId ∧
        log' = log ++ [.ran (.catConfig .destination path) (.ok output)])
      (fun _ => Safe env input) log := by
  refine EStateM.wp_bind.mpr (wp_record.mpr ⟨fun output _ => ?_, fun failure _ => h.quiet rfl⟩)
  exact wp_parse (fun repositoryId hid => ⟨h.quiet rfl, output, hid, rfl⟩) (h.quiet rfl)

theorem createRepository_spec (h : Safe env input log) :
    wp (createRepository env input)
      (fun repositoryId log' =>
        Safe env input log' ∧ BoundNow env input.destination.repositoryPath repositoryId log')
      (fun _ => Safe env input) log := by
  unfold createRepository
  refine EStateM.wp_bind.mpr (wp_record.mpr ⟨fun listing _ => ?_, fun failure _ => h.quiet rfl⟩)
  have hlisted : Safe env input
      (log ++ [.ran (.lsf input.destination.repositoryPath) (.ok listing)]) := h.quiet rfl
  refine EStateM.wp_bind.mpr (wp_refuseIf.mpr ⟨fun _ => hlisted, fun hempty => ?_⟩)
  refine EStateM.wp_bind.mpr (wp_record.mpr ⟨fun _ _ => ?_, fun failure _ => hlisted.quiet rfl⟩)
  have hbegun : Safe env input (log ++
      [.ran (.lsf input.destination.repositoryPath) (.ok listing)] ++ [.began (.ok ())]) :=
    hlisted.quiet rfl
  have hcreated : ∀ outcome, Safe env input
      (log ++ [.ran (.lsf input.destination.repositoryPath) (.ok listing)] ++ [.began (.ok ())] ++
        [.ran (.init input.destination.repositoryPath input.source.access.repositoryPath)
          outcome]) := by
    intro outcome
    apply hbegun.snoc
    rintro cmd outcome' ⟨⟩
    exact ⟨rfl, log, listing, by simp, by simpa using hempty⟩
  refine EStateM.wp_bind.mpr (wp_record.mpr ⟨fun created _ => ?_, fun failure _ => hcreated _⟩)
  refine EStateM.wp.bind (readConfig_spec (hcreated (.ok created))) ?_
  rintro repositoryId log' ⟨hread, output, hid, rfl⟩
  refine EStateM.wp_bind.mpr (wp_record.mpr ⟨fun _ _ => ?_, fun failure _ => hread.quiet rfl⟩)
  refine ⟨hread.quiet rfl,
    log ++ [.ran (.lsf input.destination.repositoryPath) (.ok listing)] ++ [.began (.ok ())],
    input.source.access.repositoryPath, created, output, hid, ?_⟩
  simp only [List.append_assoc, List.cons_append, List.nil_append]

/-- What is known of the destination after the probe. -/
def Probed (env : Env) (input : CopyInput) (probed : String × Bool) (log : List Act) : Prop :=
  if probed.2 then BoundNow env input.destination.repositoryPath probed.1 log
  else ReadNow env input.destination.repositoryPath probed.1 log

theorem probe_spec (h : Safe env input log) :
    wp (probe env input) (fun probed log' => Safe env input log' ∧ Probed env input probed log')
      (fun _ => Safe env input) log := by
  unfold probe
  refine EStateM.wp_bind.mpr (wp_observe.mpr ((readConfig_spec h).mono ?_ ?_))
  · rintro repositoryId log' ⟨hsafe, output, hid, rfl⟩
    exact ⟨hsafe, log, output, rfl, hid⟩
  · intro failure log' hsafe
    refine EStateM.wp_bind.mpr (wp_refuseIf.mpr ⟨fun _ => hsafe, fun _ => ?_⟩)
    exact EStateM.wp.bind (createRepository_spec hsafe) fun repositoryId log'' hcreated => hcreated

/-- The state is settled, and an id is on record where it is ready. -/
def Settled (state : ReplicationDestinationState) : Prop :=
  (state.initialization = .ready ∨ state.initialization = .uninitialized) ∧
    (state.initialization = .ready → state.repositoryConfigId.isSome = true)

theorem assertState_spec (h : Safe env input log) :
    wp (assertState input) (fun _ log' => Safe env input log' ∧ Settled input.state)
      (fun _ => Safe env input) log := by
  refine EStateM.wp_bind.mpr (wp_refuseIf.mpr ⟨fun _ => h, fun _ => ?_⟩)
  refine EStateM.wp_bind.mpr (wp_refuseIf.mpr ⟨fun _ => h, fun hcertain => ?_⟩)
  refine wp_refuseIf.mpr ⟨fun _ => h, fun howned => ⟨h, ?_, fun hready => ?_⟩⟩
  · cases hstate : input.state.initialization with
    | uninitialized => exact .inr rfl
    | ready => exact .inl rfl
    | initializing => simp [hstate] at hcertain
    | uncertain => simp [hstate] at hcertain
  · cases hid : input.state.repositoryConfigId with
    | some repositoryId => rfl
    | none =>
        simp only [hready, hid, Option.getD_none, beq_self_eq_true, Bool.true_and,
          Bool.not_eq_false'] at howned
        cases howned

/-- After the probe and its two comparisons, the copy is allowed. -/
theorem allowed_copy {probed : String × Bool} (hstate : Settled input.state)
    (hprobed : Probed env input probed log)
    (hchanged : (input.state.repositoryConfigId != some probed.1 &&
      input.state.repositoryConfigId.isSome) = false)
    (hunowned : (input.state.initialization == .uninitialized &&
      input.state.repositoryConfigId.isNone &&
      !probed.2) = false) (sourcePath : String) :
    Allowed env input log
      (.copy input.destination.repositoryPath sourcePath input.source.snapshotId) := by
  obtain ⟨repositoryId, fresh⟩ := probed
  refine ⟨rfl, rfl, repositoryId, ?_⟩
  cases fresh with
  | true => exact .inl hprobed
  | false =>
      refine .inr ⟨hprobed, ?_, hstate.1⟩
      cases hid : input.state.repositoryConfigId with
      | some recorded => simpa [hid] using hchanged
      | none =>
          rcases hstate.1 with hready | huninitialized
          · have hsome := hstate.2 hready
            rw [hid] at hsome
            cases hsome
          · simp [huninitialized, hid] at hunowned

/-! ## What is returned -/

/-- The snapshot is the source's or a copy of it, with the same tree and the same paths. -/
structure CopyOf (input : CopyInput) (snapshot : ReplicationSnapshot) : Prop where
  origin : snapshot.id = input.source.snapshotId ∨ snapshot.original = some input.source.snapshotId
  tree : snapshot.tree = input.proof.snapshot.tree
  paths : snapshot.paths.Perm input.proof.snapshot.paths

theorem isCopy_iff {snapshot : ReplicationSnapshot} :
    isCopy input snapshot = true ↔ CopyOf input snapshot := by
  simp only [isCopy, Bool.and_eq_true, Bool.or_eq_true, beq_iff_eq, List.isPerm_iff]
  exact ⟨fun ⟨⟨horigin, htree⟩, hpaths⟩ => ⟨horigin, htree, hpaths⟩,
    fun h => ⟨⟨h.origin, h.tree⟩, h.paths⟩⟩

/-- After the copy the destination was listed, and one snapshot of that list is a copy. -/
def Returned (env : Env) (input : CopyInput) (copied : Copied) (log : List Act) : Prop :=
  ∃ earlier sourcePath copyOutput output rest copies snapshot,
    log = earlier ++
    .ran (.copy input.destination.repositoryPath sourcePath input.source.snapshotId)
      (.ok copyOutput) ::
      .ran (.snapshots .destination input.destination.repositoryPath (selection input.source))
        (.ok output) :: rest ∧
    parseOption env snapshotsSchema output = some copies ∧
    copies.filter (isCopy input) = [snapshot] ∧ CopyOf input snapshot ∧
    snapshot.tags.filter (Js.startsWith "pluton-plan-") = [planTag input.source] ∧
    snapshot.tags.filter (Js.startsWith "pluton-backup-") = [backupTag input.source] ∧
    copied.snapshotId = snapshot.id

theorem theCopy_spec {copies : List ReplicationSnapshot} (h : Safe env input log) :
    wp (theCopy input copies) (fun snapshot log' =>
      log' = log ∧ copies.filter (isCopy input) = [snapshot])
      (fun _ => Safe env input) log := by
  unfold theCopy
  split
  · next snapshot hsnapshot => exact ⟨rfl, hsnapshot⟩
  · exact h

theorem copyOf_of_filter {copies : List ReplicationSnapshot} {snapshot : ReplicationSnapshot}
    (h : copies.filter (isCopy input) = [snapshot]) : CopyOf input snapshot := by
  have hmem : snapshot ∈ copies.filter (isCopy input) := h ▸ List.mem_singleton_self snapshot
  exact isCopy_iff.mp (List.mem_filter.mp hmem).2

theorem copy_spec (env : Env) (input : CopyInput) :
    wp (copy env input) (fun copied log => Safe env input log ∧ Returned env input copied log)
      (fun _ => Safe env input) [] := by
  unfold copy
  refine bind_safe (assertSource_reads _) Safe.nil fun _ log₁ h₁ => ?_
  refine bind_safe (assertSnapshot_reads _ _ _) h₁ fun _ log₂ h₂ => ?_
  refine EStateM.wp.bind (assertState_spec h₂) fun _ log₃ ⟨h₃, hstate⟩ => ?_
  refine bind_safe (environment_reads _ _) h₃ fun _ log₄ h₄ => ?_
  refine bind_safe (inspectSource_reads _) h₄ fun _ log₅ h₅ => ?_
  refine bind_safe Within.refuseIf h₅ fun _ log₆ h₆ => ?_
  refine EStateM.wp.bind (probe_spec h₆) fun probed log₇ ⟨h₇, hprobed⟩ => ?_
  refine EStateM.wp_bind.mpr (wp_refuseIf.mpr ⟨fun _ => h₇, fun hchanged => ?_⟩)
  refine EStateM.wp_bind.mpr (wp_refuseIf.mpr ⟨fun _ => h₇, fun hunowned => ?_⟩)
  have h₈ : ∀ outcome, Safe env input (log₇ ++ [.ran (.copy input.destination.repositoryPath
      input.source.access.repositoryPath input.source.snapshotId) outcome]) := by
    intro outcome
    apply h₇.snoc
    rintro cmd outcome' ⟨⟩
    exact allowed_copy hstate hprobed hchanged hunowned _
  refine EStateM.wp_bind.mpr (wp_record.mpr ⟨fun copyOutput _ => ?_, fun failure _ => h₈ _⟩)
  refine EStateM.wp_bind.mpr (wp_record.mpr ⟨fun output _ => ?_, fun failure _ => (h₈ _).quiet rfl⟩)
  have h₉ : Safe env input (log₇ ++
      [.ran (.copy input.destination.repositoryPath input.source.access.repositoryPath
      input.source.snapshotId) (.ok copyOutput)] ++
      [.ran (.snapshots .destination input.destination.repositoryPath (selection input.source))
        (.ok output)]) :=
    (h₈ (.ok copyOutput)).quiet rfl
  refine EStateM.wp_bind.mpr (wp_parse (fun copies hcopies => ?_) h₉)
  refine EStateM.wp.bind (theCopy_spec h₉) ?_
  rintro snapshot log' ⟨rfl, hsnapshot⟩
  refine EStateM.wp_bind.mpr (wp_refuseIf.mpr ⟨fun _ => h₉, fun htags => ?_⟩)
  refine EStateM.wp.bind ((verifyArtifacts_reads _ _ _ _ _).mono (fun _ _ h => h) fun _ _ h =>
    h₉.reads h) ?_
  intro _ log' hread
  refine ⟨h₉.reads hread, ?_⟩
  obtain ⟨acts, rfl, -⟩ := hread
  simp only [Bool.false_and, Bool.false_or, Bool.not_eq_false', boundTags, Bool.and_eq_true,
    beq_iff_eq] at htags
  exact ⟨log₇, input.source.access.repositoryPath, copyOutput, output, acts, copies,
    snapshot, by simp, hcopies,
    hsnapshot, copyOf_of_filter hsnapshot, htags.1, htags.2, rfl⟩

/-! ## Rows of the store -/

/-- The state in which the service hands a row over; it refuses one that was given up. -/
def stateOf (row : ManagedReplicationDestination) : Option ReplicationDestinationState :=
  match row.initState with
  | .uninitialized => some ⟨row.actualRepositoryId, .uninitialized⟩
  | .initializing => some ⟨row.actualRepositoryId, .initializing⟩
  | .ready => some ⟨row.actualRepositoryId, .ready⟩
  | .uncertain => some ⟨row.actualRepositoryId, .uncertain⟩
  | .detached => none

/-- The store records an id when a destination becomes ready, and not before. -/
theorem ready_of_recorded {calls : List Call} {row : ManagedReplicationDestination}
    (hrow : row ∈ (World.after calls).db.destinations) {state : ReplicationDestinationState}
    (hstate : stateOf row = some state) {repositoryId : String}
    (hrecord : OnRecord state repositoryId) :
    state.initialization = .ready := by
  rcases hrecord.2 with hready | huninitialized
  · exact hready
  · have hblank := ((owned_after calls).initialised row hrow).blank
    unfold stateOf at hstate
    split at hstate
    · next hinit =>
        cases hstate
        have hrecorded := hrecord.1
        rw [show row.actualRepositoryId = none from hblank (.inl hinit)] at hrecorded
        cases hrecorded
    all_goals
      cases hstate
    · cases huninitialized
    · rfl
    · cases huninitialized

/-- `init` runs only in a place that was just found empty and after the store was told;
`copy` only into the repository that is on record or was created and bound just before.
What is returned is the one listed snapshot that is a copy of the source. -/
theorem copy_owns_destination (env : Env) (input : CopyInput) :
    (∀ before cmd outcome rest, (copy env input).after [] = before ++ .ran cmd outcome :: rest →
      Allowed env input before cmd) ∧
    (∀ copied log, copy env input [] = .ok copied log → Returned env input copied log) ∧
    ∀ calls, ∀ row ∈ (World.after calls).db.destinations, stateOf row = some input.state →
      ∀ repositoryId, OnRecord input.state repositoryId → input.state.initialization = .ready := by
  have hspec := copy_spec env input
  refine ⟨?_, fun copied log hcopied => ?_,
    fun calls row hrow hstate repositoryId => ready_of_recorded hrow hstate⟩
  · exact wp_iff_after.mp (hspec.mono (fun _ _ h => h.1) fun _ _ h => h)
  · unfold EStateM.wp at hspec
    rw [hcopied] at hspec
    exact hspec.2

/-! ## A destination with a twin

The state has an id on record and was never made ready; the destination holds a second
snapshot with the tree, the paths and the tags of the source, copied from elsewhere. -/

namespace Twin

def hex (digit : Char) : String := String.ofList (List.replicate 64 digit)

def proved : ReplicationSnapshot :=
  { id := hex 'a', tree := hex 'e', tags := ["pluton-plan-p", "pluton-backup-b"],
    paths := ["/data"], original := none }

def copied : ReplicationSnapshot := { proved with id := hex 'b', original := some (hex 'a') }

def twin : ReplicationSnapshot := { proved with id := hex 'f', original := some (hex '0') }

def copyInput : CopyInput where
  source :=
    { access := { options := [("host", "backup"), ("user", "pluton"), ("pass", "sftp")],
                  repositoryPath := "repo",
                  password := "secret" },
      planId := "p", backupId := "b", snapshotId := hex 'a', artifacts := [] }
  proof := { repositoryConfigId := hex 'c', snapshot := proved }
  destination := { options := [("type", "s3")], repositoryPath := "replica", environment := [] }
  state := { repositoryConfigId := some (hex 'd'), initialization := .uninitialized }

def quoted (text : String) : String := "\"" ++ text ++ "\""

def config (id : String) : String × Json :=
  ("\x7b\"id\":" ++ quoted id ++ "\x7d", .obj [("id", .str id)])

def entry (snapshot : ReplicationSnapshot) : String × Json :=
  ("\x7b\"id\":" ++ quoted snapshot.id ++ ",\"tree\":" ++ quoted snapshot.tree ++ ",\"tags\":[" ++
      ",".intercalate (snapshot.tags.map quoted) ++ "],\"paths\":[" ++
      ",".intercalate (snapshot.paths.map quoted) ++
      "]" ++ (match snapshot.original with
        | some original => ",\"original\":" ++ quoted original
        | none => "") ++ "\x7d",
    .obj ([("id", .str snapshot.id), ("tree", .str snapshot.tree),
      ("tags", .arr (snapshot.tags.map .str)),
      ("paths", .arr (snapshot.paths.map .str))] ++ (match snapshot.original with
        | some original => [("original", Json.str original)]
        | none => [])))

def list (entries : List (String × Json)) : String × Json :=
  ("[" ++ ",".intercalate (entries.map fun item => item.1) ++ "]",
    .arr (entries.map fun item => item.2))

/-- What the commands print, and the value that `JSON.parse` reads from it. -/
def sourceConfig : String × Json := config (hex 'c')
def destinationConfig : String × Json := config (hex 'd')
def sourceList : String × Json := list [entry proved]
def destinationList : String × Json := list [entry copied, entry twin]

def printed (text : String) : Except Failure Output :=
  .ok { text := text, bytes := 0, sha256 := "" }

def answers : Env where
  answer _ cmd :=
    match cmd with
    | .obscure => printed "obscured"
    | .catConfig .source _ => printed sourceConfig.1
    | .catConfig .destination _ => printed destinationConfig.1
    | .snapshots .source _ _ => printed sourceList.1
    | .snapshots .destination _ _ => printed destinationList.1
    | .copy _ _ _ => printed ""
    | _ => .error "execution-failed"
  beginInitialization _ := .error "claim-lost"
  bindRepository _ _ := .error "claim-lost"
  parseJson text := [sourceConfig, destinationConfig, sourceList, destinationList].lookup text

def prepares : Act → Bool
  | .ran (.init _ _) _ => true
  | .bound _ _ => true
  | _ => false

def copies : Act → Bool
  | .ran (.copy _ _ _) _ => true
  | _ => false

/-! The run, call by call. The ids are long, so what is asked of them is
shown of lists of characters. -/

theorem hex_inj {digit other : Char} (h : hex digit = hex other) : digit = other := by
  have hlists := congrArg String.toList h
  rw [hex, hex, String.toList_ofList, String.toList_ofList] at hlists
  exact (List.replicate_right_inj (by decide)).mp hlists

theorem fullId_hex {digit : Char} (h : (digit.isDigit || ('a' ≤ digit && digit ≤ 'f')) = true) :
    fullId (hex digit) = true := by
  rw [fullId, hex, String.toList_ofList, List.length_replicate, beq_self_eq_true,
    Bool.true_and, List.all_eq_true]
  exact fun ch hch => List.eq_of_mem_replicate hch ▸ h

theorem readId_hex {digit : Char} (h : (digit.isDigit || ('a' ≤ digit && digit ≤ 'f')) = true) :
    readId (some (.str (hex digit))) = some (hex digit) :=
  if_pos (fullId_hex h)

theorem entry_text (snapshot : ReplicationSnapshot) :
    ∃ rest, (entry snapshot).1.toList = "\x7b\"id\":\"".toList ++ (snapshot.id.toList ++ rest) := by
  delta entry
  simp only [quoted, String.toList_append, List.append_assoc]
  exact ⟨_, rfl⟩

theorem entry_fields (snapshot : ReplicationSnapshot) :
    (entry snapshot).2 = .obj ([("id", .str snapshot.id), ("tree", .str snapshot.tree),
      ("tags", .arr (snapshot.tags.map .str)), ("paths", .arr (snapshot.paths.map .str))] ++
      (snapshot.original.map fun original => ("original", Json.str original)).toList) := by
  delta entry
  cases snapshot.original <;> rfl

theorem snapshotSchema_entry {id tree original : Char} {tags paths : List String} {copied : Bool}
    (hid : readId (some (.str (hex id))) = some (hex id))
    (htree : readId (some (.str (hex tree))) = some (hex tree))
    (horiginal : readId (some (.str (hex original))) = some (hex original)) :
    snapshotSchema
      (entry ⟨hex id, hex tree, tags, paths, if copied then some (hex original) else none⟩).2 =
      some ⟨hex id, hex tree, tags, paths, if copied then some (hex original) else none⟩ := by
  have htexts : ∀ items : List String,
      readTexts (some (.arr (items.map .str))) = some items := fun items => by
    induction items with
    | nil => rfl
    | cons item items ih => simp_all [readTexts]
  cases copied <;> simp [snapshotSchema, entry_fields, Json.field, List.lookup_cons, hid, htree,
    horiginal, htexts, readOriginal]

theorem head_hex (digit : Char) (rest : List Char) :
    ((hex digit).toList ++ rest).head? = some digit := by
  simp [hex]

theorem config_ne {digit other : Char} (h : digit ≠ other) :
    (config (hex digit)).1 ≠ (config (hex other)).1 := fun heq => by
  have hlists := congrArg String.toList heq
  simp only [config, quoted, String.toList_append, List.append_assoc,
    List.append_cancel_left_eq] at hlists
  have hheads := congrArg List.head? hlists
  rw [head_hex, head_hex] at hheads
  exact h (Option.some.inj hheads)

theorem toList_list (snapshot : ReplicationSnapshot) (entries : List (String × Json)) :
    ∃ rest, (list (entry snapshot :: entries)).1.toList =
      "[\x7b\"id\":\"".toList ++ (snapshot.id.toList ++ rest) := by
  have hjoined : ∃ rest,
      (",".intercalate ((entry snapshot :: entries).map fun item => item.1)).toList =
        (entry snapshot).1.toList ++ rest := by
    cases entries with
    | nil => exact ⟨[], by rw [List.map_singleton, String.intercalate_singleton, List.append_nil]⟩
    | cons first more =>
        exact ⟨_, by rw [List.map_cons, List.map_cons, String.intercalate_cons_cons,
          String.append_assoc, String.toList_append]⟩
  obtain ⟨rest, hrest⟩ := hjoined
  obtain ⟨behind, hbehind⟩ := entry_text snapshot
  refine ⟨behind ++ (rest ++ "]".toList), ?_⟩
  rw [list, String.toList_append, String.toList_append, hrest, hbehind]
  simp only [List.append_assoc]
  rfl

theorem config_ne_list (id : String) (snapshot : ReplicationSnapshot)
    (entries : List (String × Json)) : (config id).1 ≠ (list (entry snapshot :: entries)).1 :=
  fun heq => by
  obtain ⟨rest, hrest⟩ := toList_list snapshot entries
  have hlists := congrArg String.toList heq
  rw [hrest] at hlists
  simp only [config, String.toList_append, List.append_assoc] at hlists
  exact absurd (List.cons.inj hlists).1 (by decide)

theorem sourceList_ne_destinationList : sourceList.1 ≠ destinationList.1 := fun heq => by
  obtain ⟨rest, hrest⟩ := toList_list proved []
  obtain ⟨other, hother⟩ := toList_list copied [entry twin]
  have hlists := congrArg String.toList heq
  rw [sourceList, destinationList, hrest, hother] at hlists
  have hheads := congrArg List.head? (List.append_cancel_left hlists)
  rw [proved, copied, head_hex, head_hex] at hheads
  exact absurd (Option.some.inj hheads) (by decide)

theorem lookup_pair {key : String} {pair : String × Json} {rest : List (String × Json)} :
    (pair :: rest).lookup key = if key == pair.1 then some pair.2 else rest.lookup key := by
  obtain ⟨name, value⟩ := pair
  rw [List.lookup_cons]
  cases key == name <;> rfl

theorem parseJson_answers : answers.parseJson sourceConfig.1 = some sourceConfig.2 ∧
    answers.parseJson destinationConfig.1 = some destinationConfig.2 ∧
    answers.parseJson sourceList.1 = some sourceList.2 ∧
    answers.parseJson destinationList.1 = some destinationList.2 := by
  have hconfigs : (destinationConfig.1 == sourceConfig.1) = false :=
    beq_eq_false_iff_ne.mpr (config_ne (by decide))
  have hsource : (sourceList.1 == sourceConfig.1) = false :=
    beq_eq_false_iff_ne.mpr (config_ne_list _ _ _).symm
  have hsource' : (sourceList.1 == destinationConfig.1) = false :=
    beq_eq_false_iff_ne.mpr (config_ne_list _ _ _).symm
  have hdestination : (destinationList.1 == sourceConfig.1) = false :=
    beq_eq_false_iff_ne.mpr (config_ne_list _ _ _).symm
  have hdestination' : (destinationList.1 == destinationConfig.1) = false :=
    beq_eq_false_iff_ne.mpr (config_ne_list _ _ _).symm
  have hlists : (destinationList.1 == sourceList.1) = false :=
    beq_eq_false_iff_ne.mpr sourceList_ne_destinationList.symm
  simp only [answers, lookup_pair, beq_self_eq_true, hconfigs, hsource, hsource', hdestination,
    hdestination', hlists, if_true, Bool.false_eq_true, if_false, and_self]

theorem snapshotSchema_listed :
    snapshotSchema (entry proved).2 = some proved ∧ snapshotSchema (entry copied).2 = some copied ∧
    snapshotSchema (entry twin).2 = some twin :=
  ⟨@snapshotSchema_entry 'a' 'e' 'a' _ _ false (readId_hex (by decide)) (readId_hex (by decide))
    (readId_hex (by decide)),
    @snapshotSchema_entry 'b' 'e' 'a' _ _ true (readId_hex (by decide)) (readId_hex (by decide))
      (readId_hex (by decide)),
    @snapshotSchema_entry 'f' 'e' '0' _ _ true (readId_hex (by decide)) (readId_hex (by decide))
      (readId_hex (by decide))⟩

/-- What the four commands with a value are read as. -/
theorem parse_answers :
    parseOption answers configSchema { text := sourceConfig.1, bytes := 0, sha256 := "" } =
      some (hex 'c') ∧
    parseOption answers configSchema { text := destinationConfig.1, bytes := 0, sha256 := "" } =
      some (hex 'd') ∧
    parseOption answers snapshotsSchema { text := sourceList.1, bytes := 0,
                                          sha256 := "" } = some [proved] ∧
    parseOption answers snapshotsSchema { text := destinationList.1, bytes := 0, sha256 := "" } =
      some [copied, twin] := by
  obtain ⟨hsource, hdestination, hlist, hlists⟩ := parseJson_answers
  obtain ⟨hproved, hcopied, htwin⟩ := snapshotSchema_listed
  have hparse : ∀ {α : Type} {schema : Json → Option α} {text : String} {value : Json} {read : α},
      answers.parseJson text = some value → schema value = some read →
        parseOption answers schema { text := text, bytes := 0, sha256 := "" } = some read :=
          fun hjson hread => by
    rw [parseOption, hjson]
    exact hread
  refine ⟨hparse hsource ?_, hparse hdestination ?_, hparse hlist ?_, hparse hlists ?_⟩
  · simp [sourceConfig, config, configSchema, Json.field, @readId_hex 'c' (by decide)]
  · simp [destinationConfig, config, configSchema, Json.field, @readId_hex 'd' (by decide)]
  · simp [sourceList, list, snapshotsSchema, hproved]
  · simp [destinationList, list, snapshotsSchema, hcopied, htwin]

theorem run_bind {α β : Type} {x : Exec α} {f : α → Exec β} {a : α} {log log' : List Act}
    (h : x log = .ok a log') :
    (x >>= f) log = f a log' := by
  show EStateM.bind x f log = f a log'
  rw [EStateM.bind, h]

theorem run_refuseIf {c : Bool} {failure : Failure} {log : List Act} (h : c = false) :
    (refuseIf c failure : Exec Unit) log = .ok () log := by
  rw [h]
  rfl

theorem run_command {cmd : Command} {text : String} {log : List Act}
    (h : answers.answer log cmd = printed text) :
    command answers cmd log =
      .ok { text := text, bytes := 0, sha256 := "" } (log ++ [.ran cmd (printed text)]) := by
  show (MonadExcept.ofExcept (answers.answer log cmd) : Exec Output)
      (log ++ [.ran cmd (answers.answer log cmd)]) = _
  rw [h]
  rfl

theorem run_parse {α : Type} {schema : Json → Option α} {output : Output} {value : α}
    {log : List Act} (h : parseOption answers schema output = some value) :
    parse answers schema output log = .ok value log := by
  rw [parse, h]
  rfl

theorem run_environment (log : List Act) :
    environment answers copyInput.source.access (some copyInput.destination) log =
    .ok () (log ++ [.ran .obscure (printed "obscured")]) := by
  rw [environment, run_bind (run_refuseIf (by decide +kernel)), run_bind (run_command rfl),
    run_bind (run_refuseIf (by decide +kernel))]
  exact run_refuseIf (by decide +kernel)

theorem run_environment_source (log : List Act) :
    environment answers copyInput.source.access none log =
    .ok () (log ++ [.ran .obscure (printed "obscured")]) := by
  rw [environment, run_bind (run_refuseIf (by decide +kernel)), run_bind (run_command rfl),
    run_bind (run_refuseIf (by decide +kernel))]
  exact run_refuseIf rfl

theorem run_assertSource (log : List Act) : assertSource copyInput.source log = .ok () log := by
  have hid : fullId copyInput.source.snapshotId = true := fullId_hex (by decide)
  rw [assertSource, run_bind (run_refuseIf (by rw [hid]; decide +kernel))]
  exact run_refuseIf rfl

theorem run_assertSnapshot {snapshot : ReplicationSnapshot} {exact : Bool} {log : List Act}
    (hid : exact = true → snapshot.id = copyInput.source.snapshotId)
    (htags : snapshot.tags = proved.tags) :
    assertSnapshot copyInput.source snapshot exact log = .ok () log := by
  have hbound : boundTags copyInput.source snapshot = true := by
    rw [boundTags, htags]
    decide +kernel
  refine run_refuseIf ?_
  cases exact with
  | false => rw [hbound]; rfl
  | true => simp [hid rfl, hbound]

theorem run_assertState (log : List Act) : assertState copyInput log = .ok () log := by
  have hconfig : fullId copyInput.proof.repositoryConfigId = true := fullId_hex (by decide)
  have htree : fullId copyInput.proof.snapshot.tree = true := fullId_hex (by decide)
  rw [assertState, run_bind (run_refuseIf (by rw [hconfig, htree]; rfl)),
    run_bind (run_refuseIf (by rfl))]
  exact run_refuseIf rfl

theorem run_readConfig {remote : Remote} {repository text value : String} {log : List Act}
    (hanswer : answers.answer log (.catConfig remote repository) = printed text)
    (hparse : parseOption answers configSchema
      { text := text, bytes := 0, sha256 := "" } = some value) :
    readConfig answers remote repository log =
      .ok value (log ++ [.ran (.catConfig remote repository) (printed text)]) := by
  rw [readConfig, run_bind (run_command hanswer)]
  exact run_parse hparse

def sourceActs : List Act :=
  [.ran .obscure (printed "obscured"), .ran (.catConfig .source "repo") (printed sourceConfig.1),
    .ran (.snapshots .source "repo" [hex 'a']) (printed sourceList.1)]

theorem run_inspectSource (log : List Act) :
    inspectSource answers copyInput.source log = .ok copyInput.proof (log ++ sourceActs) := by
  obtain ⟨hconfig, -, hlist, -⟩ := parse_answers
  have hrow : theSnapshot copyInput.source [proved] = pure proved := by
    rw [theSnapshot]
    exact if_pos (beq_iff_eq.mpr rfl)
  rw [inspectSource, run_bind (run_assertSource log), run_bind (run_environment_source log),
    run_bind (run_readConfig rfl hconfig), run_bind (run_command rfl), run_bind (run_parse hlist),
    hrow, pure_bind, run_bind (run_assertSnapshot (fun _ => rfl) rfl)]
  simp only [List.append_assoc]
  rfl

theorem isCopy_listed : [copied, twin].filter (isCopy copyInput) = [copied] := by
  have hcopied : isCopy copyInput copied = true := by
    simp [isCopy, copied, copyInput, proved, List.isPerm_iff]
  have htwin : isCopy copyInput twin = false := by
    have hid : hex 'f' ≠ hex 'a' := fun h => absurd (hex_inj h) (by decide)
    have horiginal : hex '0' ≠ hex 'a' := fun h => absurd (hex_inj h) (by decide)
    simp [isCopy, twin, copyInput, proved, hid, horiginal]
  rw [List.filter_cons_of_pos hcopied, List.filter_cons_of_neg (by simp [htwin]), List.filter_nil]

/-- What the call does. -/
def acts : List Act :=
  .ran .obscure (printed "obscured") :: sourceActs ++
    [.ran (.catConfig .destination "replica") (printed destinationConfig.1),
      .ran (.copy "replica" "repo" (hex 'a')) (printed ""),
      .ran (.snapshots .destination "replica" (selection copyInput.source))
        (printed destinationList.1)]

theorem run_copy : copy answers copyInput [] =
    .ok { snapshotId := copied.id, repositoryConfigId := hex 'd' } acts := by
  obtain ⟨-, hconfig, -, hlists⟩ := parse_answers
  have hprobe : ∀ log, probe answers copyInput log =
      .ok (hex 'd', false) (log ++
        [.ran (.catConfig .destination "replica") (printed destinationConfig.1)]) := fun log => by
    rw [probe, run_bind (a := .ok (hex 'd'))]
    · rfl
    · rw [observe, run_readConfig rfl hconfig]
      rfl
  have hcopy : theCopy copyInput [copied, twin] = pure copied := by rw [theCopy, isCopy_listed]
  have hexact : assertSnapshot copyInput.source copyInput.proof.snapshot true [] = .ok () [] :=
    run_assertSnapshot (fun _ => rfl) rfl
  have hcopied : ∀ log, assertSnapshot copyInput.source copied false log = .ok () log := fun log =>
    run_assertSnapshot (fun h => absurd h Bool.false_ne_true) rfl
  rw [copy, run_bind (run_assertSource []), run_bind hexact, run_bind (run_assertState []),
    run_bind (run_environment []), run_bind (run_inspectSource _),
    run_bind (run_refuseIf (bne_self_eq_false _)), run_bind (hprobe _)]
  dsimp only
  rw [run_bind (run_refuseIf (by simp [copyInput])), run_bind (run_refuseIf (by rfl)),
    run_bind (run_command rfl), run_bind (run_command rfl), run_bind (run_parse hlists), hcopy,
    pure_bind, run_bind (hcopied _)]
  simp only [List.append_assoc]
  rfl

/-- The copy runs into a destination that is not ready and was not created in this call,
and what it returns is not the only listed snapshot with the source's tree, paths and tags. -/
theorem copy_unready_ambiguous :
    ((copy answers copyInput).after []).any copies = true ∧
    copyInput.state.initialization ≠ .ready ∧
    ((copy answers copyInput).after []).any prepares = false ∧
    (copy answers copyInput []).value?.map (fun result => result.snapshotId) = some copied.id ∧
    parseOption answers snapshotsSchema { text := destinationList.1, bytes := 0, sha256 := "" } =
      some [copied, twin] ∧
    .ran (.snapshots .destination "replica" (selection copyInput.source))
      (printed destinationList.1) ∈
      (copy answers copyInput).after [] ∧
    twin.id ≠ copied.id ∧ twin.tree = copyInput.proof.snapshot.tree ∧
    twin.paths = copyInput.proof.snapshot.paths ∧
    twin.tags = copyInput.proof.snapshot.tags := by
  have hafter : (copy answers copyInput).after [] = acts := by
    rw [EStateM.after, run_copy, EStateM.Result.state]
  have hids : twin.id ≠ copied.id := fun h => absurd (hex_inj h) (by decide)
  rw [hafter, run_copy]
  exact ⟨rfl, by decide, rfl, rfl, parse_answers.2.2.2,
    .tail _ (.tail _ (.tail _ (.tail _ (.tail _ (.tail _ (.head _)))))),
    hids, rfl, rfl, rfl⟩

end Twin

end Pluton.Replication.Executor
