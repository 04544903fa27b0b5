-- SUMMARY: A scan of a source ends, and reports exactly what is not excluded, or why it stopped.
import Pluton.Ends
import Pluton.SourcePreflight.Policy
import Pluton.Worklist

/-!
# The scan

The scan meets an entry when it is not excluded and its directory is met; a link is met, and
not what it points to. A scan that calls itself complete has checked what it can meet, each
entry once. One that stops early has counted as many entries as it may, or stops at the first
reading of the clock that is late, or names an entry that it can meet and that is not as it
has to be. The source itself lies below an allowed root.
-/
namespace Pluton.SourcePreflight

open Posix Except

section
variable (fs : FileSystem) (ctx : Context)

/-! ## What there is to meet -/

def FileSystem.isKind (kind : Kind) (path : String) : Bool := (fs.lstat path).toOption == some kind

/-- The paths of the entries that a directory yields. -/
def FileSystem.filenames (directory : String) : List String :=
  match fs.opendir directory with
  | .ok listing => listing.names.map (join directory)
  | .error _ => []

/-- The entries that are not excluded. -/
def kept (filenames : List String) : List String :=
  filenames.filter fun filename => !ctx.excludes filename

/-- The entries that can be met in a directory. -/
def entries (directory : String) : List String := kept ctx (fs.filenames directory)

/-- The paths that a scan can meet. -/
def Meets (path : String) : Prop :=
  Worklist.Reached (fs.isKind .directory) (entries fs ctx) ctx.resolved path

/-- The entry is a link, or a file or a directory that can be read. -/
def FileSystem.Accessible (path : String) : Prop :=
  ∃ kind, fs.lstat path = .ok kind ∧ kind ≠ .other ∧ (kind ≠ .symlink →
    fs.access path true (kind == .directory) = .ok ())

/-- The directory is its own real path, is below the source, and can be listed to its end. -/
def Opens (directory : String) : Prop :=
  resolveSource fs directory = .ok directory ∧ within ctx.resolved directory = true ∧
    ∃ listing, fs.opendir directory = .ok listing ∧ listing.broken = false

/-- What a file system promises: real paths are resolved, and the names in a directory are
names, each of one entry. -/
structure FileSystem.Lawful : Prop where
  canonical : ∀ path real, fs.realpath path = .ok real → Canonical real
  names : ∀ directory listing, fs.opendir directory = .ok listing →
    listing.names.Nodup ∧ ∀ name ∈ listing.names, IsPlain name

/-! ## One directory -/

/-- The scan after a directory whose entries have these paths. -/
def Scan.through (scan : Scan) (filenames : List String) : Scan where
  report :=
    { scan.report with
      entriesChecked := scan.report.entriesChecked + (kept ctx filenames).length
      linksNotFollowed :=
        scan.report.linksNotFollowed + (kept ctx filenames).countP (fs.isKind .symlink)
      entriesExcluded := scan.report.entriesExcluded + filenames.countP ctx.excludes }
  pending := ((kept ctx filenames).filter (fs.isKind .directory)).reverse ++ scan.pending
  ticks := scan.ticks + filenames.length

/-- None of the first `n` readings of the clock is late. -/
def Context.InTime (n : Nat) : Prop := ∀ k < n, ctx.late k = false

/-- A report that stops in a directory, with the entries in `front` behind it: the limit is
reached, or the reading of the clock for the next entry is late. -/
structure StopsAfter (scan : Scan) (front : List String) (report : Report) : Prop where
  checked : report.entriesChecked = scan.report.entriesChecked + (kept ctx front).length
  excluded : report.entriesExcluded = scan.report.entriesExcluded + front.countP ctx.excludes
  limit : scan.report.entriesChecked ≤ ctx.limit → report.entriesChecked ≤ ctx.limit
  inTime : ctx.InTime scan.ticks → ctx.InTime (scan.ticks + front.length)
  why : report.scan = .entryLimit ∧ ctx.limit ≤ report.entriesChecked ∨
    report.scan = .deadline ∧ report.entriesChecked < ctx.limit ∧
    ctx.late (scan.ticks + front.length) = true

def Stops (scan : Scan) (filenames : List String) (report : Report) : Prop :=
  ∃ front, front <+: filenames ∧ StopsAfter ctx scan front report

/-- The paths that are met when these directories are done. -/
def met (done : List String) : List String := Worklist.met (entries fs ctx) ctx.resolved done

/-- What the report says when these directories are done. -/
def tally (report : Report) (done : List String) : Report :=
  { report with
    entriesChecked := (met fs ctx done).length
    linksNotFollowed := (met fs ctx done).countP (fs.isKind .symlink)
    entriesExcluded :=
      (done.map fun directory => (fs.filenames directory).countP ctx.excludes).sum }

end

section
variable {fs : FileSystem} {ctx : Context} {scan next : Scan}
  {directory name filename path : String} {names filenames : List String} {report : Report}
  {error : SourceAccessError} {kind : Kind} {root : Bool}

theorem isKind_iff : fs.isKind kind path = true ↔ fs.lstat path = .ok kind := by
  rw [FileSystem.isKind, beq_iff_eq]
  cases fs.lstat path with
  | error code => exact ⟨fun h => (nomatch h), fun h => (nomatch h)⟩
  | ok held =>
      exact ⟨fun h => congrArg _ (Option.some.inj h), fun h => congrArg _ (Except.ok.inj h)⟩

theorem check_ends (candidate resolved : String) : (check fs candidate resolved path root).Ends
    (fun kind => fs.lstat path = .ok kind ∧ fs.Accessible path ∧ (root = true → kind ≠ .symlink))
    fun error => error.blockedPath = some path ∧ (root = false → ¬ fs.Accessible path) := by
  unfold check
  cases hstat : fs.lstat path with
  | error code =>
      refine ⟨rfl, fun _ haccessible => ?_⟩
      obtain ⟨kind, hkind, -⟩ := haccessible
      exact nomatch hstat.symm.trans hkind
  | ok kind =>
      cases kind with
      | symlink =>
          cases root with
          | true => exact ⟨rfl, fun h => absurd h (by decide)⟩
          | false => exact ⟨rfl, ⟨.symlink, hstat, by decide, fun h => absurd rfl h⟩,
              fun h => absurd h (by decide)⟩
      | other =>
          refine ⟨rfl, fun _ haccessible => ?_⟩
          obtain ⟨kind, hkind, hother, -⟩ := haccessible
          exact hother (Except.ok.inj (hstat.symm.trans hkind)).symm
      | file | directory =>
          dsimp only
          split
          · rename_i code hread
            refine ⟨rfl, fun _ haccessible => ?_⟩
            obtain ⟨kind, hkind, -, hread'⟩ := haccessible
            obtain rfl := Except.ok.inj (hstat.symm.trans hkind)
            exact nomatch hread.symm.trans (hread' (by decide))
          · rename_i hread
            exact ⟨rfl, ⟨_, hstat, by decide, fun _ => hread⟩, fun _ => by decide⟩

theorem kept_cons (filename : String) (filenames : List String) :
    kept ctx (filename :: filenames) = if ctx.excludes filename then kept ctx filenames
      else filename :: kept ctx filenames := by
  cases hexcluded : ctx.excludes filename with
  | true => exact List.filter_cons_of_neg (by simp [hexcluded])
  | false => exact List.filter_cons_of_pos (by simp [hexcluded])

theorem through_cons_excluded (hexcluded : ctx.excludes filename = true) :
    scan.through fs ctx (filename :: filenames) =
      Scan.through fs ctx { scan.skip with ticks := scan.ticks + 1 } filenames := by
  simp [Scan.through, Scan.skip, kept_cons, hexcluded]
  omega

theorem through_cons_kept (hexcluded : ctx.excludes filename = false)
    (hkind : fs.lstat filename = .ok kind) :
    scan.through fs ctx (filename :: filenames) =
      Scan.through fs ctx { scan.add filename kind with ticks := scan.ticks + 1 } filenames := by
  have hkept : kept ctx (filename :: filenames) = filename :: kept ctx filenames := by
    rw [kept_cons, hexcluded, if_neg Bool.false_ne_true]
  have his : ∀ asked, fs.isKind asked filename = (kind == asked) := fun asked => by
    rw [FileSystem.isKind, hkind]
    cases kind <;> cases asked <;> rfl
  rw [Scan.through, hkept, List.countP_cons, List.filter_cons, his, his, List.countP_cons,
    hexcluded, List.length_cons]
  cases kind <;> simp [Scan.through, Scan.add] <;> omega

theorem Context.InTime.succ {n : Nat} (h : ctx.InTime n) (hlate : ctx.late n = false) :
    ctx.InTime (n + 1) := fun k hk =>
  (Nat.lt_succ_iff_lt_or_eq.mp hk).elim (h k) fun heq => heq ▸ hlate

/-- A directory whose first entry was passed in time stops where the rest of it does. -/
theorem Stops.cons (h : Stops ctx next filenames report)
    (hchecked : next.report.entriesChecked =
      scan.report.entriesChecked + (kept ctx [filename]).length)
    (hexcluded : next.report.entriesExcluded =
      scan.report.entriesExcluded + [filename].countP ctx.excludes)
    (hticks : next.ticks = scan.ticks + 1) (hlate : ctx.late scan.ticks = false)
    (hlimit : next.report.entriesChecked ≤ ctx.limit) :
    Stops ctx scan (filename :: filenames) report := by
  obtain ⟨front, hfront, hstop⟩ := h
  have hlength : scan.ticks + (filename :: front).length = next.ticks + front.length := by
    rw [hticks, List.length_cons]
    omega
  refine ⟨filename :: front, List.cons_prefix_cons.mpr ⟨rfl, hfront⟩, ?_⟩
  constructor
  · have hsplit : (kept ctx (filename :: front)).length =
        (kept ctx [filename]).length + (kept ctx front).length := by
      rw [← List.length_append, kept, kept, kept, ← List.filter_append, List.singleton_append]
    have hrest := hstop.checked
    omega
  · have hsplit : (filename :: front).countP ctx.excludes =
        [filename].countP ctx.excludes + front.countP ctx.excludes := by
      rw [← List.countP_append, List.singleton_append]
    have hrest := hstop.excluded
    omega
  · exact fun _ => hstop.limit hlimit
  · intro hinTime
    rw [hlength]
    exact hstop.inTime (hticks ▸ hinTime.succ hlate)
  · rw [hlength]
    exact hstop.why

/-- A scan that stops before the next entry of a directory. -/
theorem Stops.here (hchecked : report.entriesChecked = scan.report.entriesChecked)
    (hexcluded : report.entriesExcluded = scan.report.entriesExcluded)
    (hwhy : report.scan = .entryLimit ∧ ctx.limit ≤ report.entriesChecked ∨
      report.scan = .deadline ∧ report.entriesChecked < ctx.limit ∧ ctx.late scan.ticks = true) :
      Stops ctx scan filenames report :=
  ⟨[], List.nil_prefix, hchecked, hexcluded, fun h => hchecked ▸ h, fun h => h, hwhy⟩

variable (fs ctx directory filenames) in
theorem visit_ends (name : String) (scan : Scan) : (visit fs ctx directory scan name).Ends
    (fun
      | .on next => scan.report.entriesChecked < ctx.limit ∧ ctx.late scan.ticks = false ∧
          (ctx.excludes (join directory name) = true ∧
            next = { scan.skip with ticks := scan.ticks + 1 } ∨
            ctx.excludes (join directory name) = false ∧
            fs.Accessible (join directory name) ∧ ∃ kind,
              fs.lstat (join directory name) = .ok kind ∧
              next = { scan.add (join directory name) kind with ticks := scan.ticks + 1 })
      | .returned report => Stops ctx scan (join directory name :: filenames) report)
    fun error => ctx.excludes (join directory name) = false ∧
      error.blockedPath = some (join directory name) ∧
      ¬ fs.Accessible (join directory name) := by
  unfold visit
  refine Ends.ite (fun hlimit => Stops.here rfl rfl (.inl ⟨rfl, hlimit⟩)) fun hlimit => ?_
  have hlimit := Nat.lt_of_not_le hlimit
  refine Ends.ite (fun hlate => Stops.here rfl rfl (.inr ⟨rfl, hlimit, hlate⟩)) fun hlate => ?_
  have hlate : ctx.late scan.ticks = false := Bool.eq_false_iff.mpr hlate
  dsimp only
  refine Ends.ite (fun hexcluded => ⟨hlimit, hlate, .inl ⟨hexcluded, rfl⟩⟩) fun hkept => ?_
  have hkept : ctx.excludes (join directory name) = false := Bool.eq_false_iff.mpr hkept
  refine ((check_ends ctx.candidate ctx.resolved).mono (fun _ h => h) fun error h =>
    ?_).bind fun kind h => ?_
  · exact ⟨hkept, h.1, h.2 rfl⟩
  · exact ⟨hlimit, hlate, .inr ⟨hkept, h.2.1, kind, h.1, rfl⟩⟩

theorem visitAll_ends (names : List String) (scan : Scan) :
    (visitAll fs ctx directory names scan).Ends
    (fun
      | .on next => (∀ f ∈ kept ctx (names.map (join directory)), fs.Accessible f) ∧
          (scan.report.entriesChecked ≤ ctx.limit → next.report.entriesChecked ≤ ctx.limit) ∧
          (ctx.InTime scan.ticks → ctx.InTime next.ticks) ∧
          next = scan.through fs ctx (names.map (join directory))
      | .returned report => Stops ctx scan (names.map (join directory)) report)
    fun error => ∃ f ∈ kept ctx (names.map (join directory)),
      error.blockedPath = some f ∧ ¬ fs.Accessible f := by
  -- On the names; a child that ends the scan ends it for the names behind it as well.
  induction names generalizing scan with
  | nil => exact ⟨fun f hf => absurd hf List.not_mem_nil, fun h => h, fun h => h, rfl⟩
  | cons name names ih =>
      have hkeep : ctx.excludes (join directory name) = false →
          kept ctx ((name :: names).map (join directory)) =
            join directory name :: kept ctx (names.map (join directory)) := fun h => by
        rw [List.map_cons, kept_cons, h, if_neg Bool.false_ne_true]
      have hfirst := visit_ends fs ctx directory (names.map (join directory)) name scan
      refine (hfirst.mono (fun _ h => h) fun error h => ?_).bind fun flow h => ?_
      · rw [hkeep h.1]
        exact ⟨_, List.mem_cons_self, h.2⟩
      · cases flow with
        | returned report => exact h
        | on next =>
            obtain ⟨hlt, hlate, ⟨hexcluded, rfl⟩ | ⟨hkept, haccessible, kind, hkind, rfl⟩⟩ := h
            -- An excluded child adds nothing to the children that are kept.
            · have hskip : kept ctx ((name :: names).map (join directory)) =
                  kept ctx (names.map (join directory)) := by
                rw [List.map_cons, kept_cons, hexcluded, if_pos rfl]
              rw [hskip]
              refine (ih _).mono (fun flow h => ?_) fun _ h => h
              cases flow with
              | on last =>
                  obtain ⟨haccessible, hlimit, hinTime, hlast⟩ := h
                  exact ⟨haccessible, fun _ => hlimit hlt.le, fun h => hinTime (h.succ hlate),
                    hlast.trans (through_cons_excluded hexcluded).symm⟩
              | returned report =>
                  exact Stops.cons h (by simp [Scan.skip, hexcluded, kept])
                    (by simp [Scan.skip, hexcluded]) rfl hlate hlt.le
            -- A child that is kept is the first of them, and the others are the induction's.
            · rw [hkeep hkept]
              refine (ih _).mono (fun flow h => ?_) fun error h => ?_
              · cases flow with
                | on last =>
                    obtain ⟨hrest, hlimit, hinTime, hlast⟩ := h
                    exact ⟨List.forall_mem_cons.mpr ⟨haccessible, hrest⟩, fun _ => hlimit hlt,
                      fun h => hinTime (h.succ hlate),
                      hlast.trans (through_cons_kept hkept hkind).symm⟩
                | returned report =>
                    exact Stops.cons h (by simp [Scan.add, hkept, kept])
                      (by simp [Scan.add, hkept]) rfl hlate hlt
              · obtain ⟨f, hf, hblocked⟩ := h
                exact ⟨f, List.mem_cons_of_mem _ hf, hblocked⟩

theorem expand_ends (scan : Scan) : (expand fs ctx directory scan).Ends
    (fun
      | .on next => Opens fs ctx directory ∧ (∀ f ∈ entries fs ctx directory, fs.Accessible f) ∧
          (scan.report.entriesChecked ≤ ctx.limit → next.report.entriesChecked ≤ ctx.limit) ∧
          (ctx.InTime scan.ticks → ctx.InTime next.ticks) ∧
          next = scan.through fs ctx (fs.filenames directory)
      | .returned report => Stops ctx scan (fs.filenames directory) report)
    fun error => ¬ Opens fs ctx directory ∧ (resolveSource fs directory = .error error ∨
      error.blockedPath = some directory) ∨
      ∃ f ∈ entries fs ctx directory, error.blockedPath = some f ∧ ¬ fs.Accessible f := by
  unfold expand
  refine ends_bind (fun real hreal => ?_) fun error herror => .inl ⟨fun hopens => ?_, .inl herror⟩
  · refine Ends.ite (fun hapart => .inl ⟨fun hopens => ?_, .inr rfl⟩) fun hsame => ?_
    · have hdirectory := Except.ok.inj (hreal.symm.trans hopens.1)
      simp [hdirectory, hopens.2.1] at hapart
    · simp only [Bool.or_eq_true, bne_iff_ne, Bool.not_eq_true', not_or, Decidable.not_not,
        Bool.not_eq_false] at hsame
      obtain ⟨rfl, hwithin⟩ := hsame
      cases hlisting : fs.opendir real with
      | error code =>
          refine .inl ⟨fun ⟨_, _, listing, hopened, _⟩ => ?_, .inr rfl⟩
          exact nomatch hlisting.symm.trans hopened
      | ok listing =>
          have hnames : fs.filenames real = listing.names.map (join real) := by
            rw [FileSystem.filenames, hlisting]
          rw [entries, hnames]
          refine ((visitAll_ends listing.names scan).mono (fun _ h => h) fun _ h =>
            .inr h).bind fun flow h => ?_
          cases flow with
          | returned report => exact h
          | on next =>
              refine Ends.ite (fun hbroken =>
                .inl ⟨fun ⟨_, _, other, hopened, hwhole⟩ => ?_, .inr rfl⟩) fun hwhole => ?_
              · obtain rfl := Except.ok.inj (hlisting.symm.trans hopened)
                exact absurd (hbroken.symm.trans hwhole) (by decide)
              · exact ⟨⟨hreal, hwithin, listing, hlisting, Bool.eq_false_iff.mpr hwhole⟩, h⟩
  · exact nomatch herror.symm.trans hopens.1

/-! ## Every entry has one directory -/

theorem mem_entries (hlawful : fs.Lawful) (h : path ∈ entries fs ctx directory) :
    ∃ listing name, fs.opendir directory = .ok listing ∧ IsPlain name ∧
      path = join directory name := by
  have hfile := (List.mem_filter.mp h).1
  unfold FileSystem.filenames at hfile
  split at hfile
  · rename_i listing hlisting
    obtain ⟨name, hname, rfl⟩ := List.mem_map.mp hfile
    exact ⟨listing, name, hlisting, (hlawful.names directory listing hlisting).2 name hname, rfl⟩
  · exact absurd hfile List.not_mem_nil

theorem Meets.below (hlawful : fs.Lawful) {names : List String}
    (hnames : ∀ name ∈ names, IsPlain name) (hresolved : ctx.resolved = ofNames names)
    (h : Meets fs ctx path) :
    ∃ more, (∀ name ∈ names ++ more, IsPlain name) ∧ path = ofNames (names ++ more) := by
  induction h with
  | refl => exact ⟨[], by rwa [List.append_nil], by rw [List.append_nil, hresolved]⟩
  | tail _ hlead ih =>
      obtain ⟨more, hplain, rfl⟩ := ih
      obtain ⟨listing, name, -, hname, rfl⟩ := mem_entries hlawful hlead.2
      refine ⟨more ++ [name], fun other hother => ?_, by
        rw [join_ofNames hplain hname, List.append_assoc]⟩
      rw [← List.append_assoc] at hother
      exact (List.mem_append.mp hother).elim (hplain other) fun hlast =>
        List.mem_singleton.mp hlast ▸ hname

theorem tree_entries (hlawful : fs.Lawful) (hcanonical : Canonical ctx.resolved) :
    Worklist.Tree (fs.isKind .directory) (entries fs ctx) ctx.resolved := by
  obtain ⟨names, hnames, hresolved⟩ := hcanonical
  have hinj : ∀ {front back : List String} {name other : String},
      (∀ n ∈ names ++ front, IsPlain n) → (∀ n ∈ names ++ back, IsPlain n) →
      IsPlain name → IsPlain other →
      join (ofNames (names ++ front)) name = join (ofNames (names ++ back)) other →
        names ++ front = names ++ back ∧ name = other := by
    intro front back name other hfront hback hname hother h
    rw [join_ofNames hfront hname, join_ofNames hback hother] at h
    have hlists :=
      ofNames_inj (fun n hn =>
        ((List.mem_append.mp hn).elim (hfront n) fun hlast =>
          List.mem_singleton.mp hlast ▸ hname).1)
      (fun n hn => ((List.mem_append.mp hn).elim (hback n) fun hlast =>
        List.mem_singleton.mp hlast ▸ hother).1) h
    obtain ⟨hinit, hlast⟩ := List.append_inj' hlists rfl
    exact ⟨hinit, List.singleton_inj.mp hlast⟩
  constructor
  · intro directory hmet
    obtain ⟨more, hplain, rfl⟩ := Meets.below hlawful hnames hresolved hmet
    refine List.Nodup.filter _ ?_
    unfold FileSystem.filenames
    split
    · rename_i listing hlisting
      obtain ⟨hnodup, hall⟩ := hlawful.names _ listing hlisting
      exact hnodup.map_on fun name hname other hother h =>
        (hinj hplain hplain (hall name hname) (hall other hother) h).2
    · exact List.nodup_nil
  · intro directory other hmet hmet' entry hentry hentry'
    obtain ⟨more, hplain, rfl⟩ := Meets.below hlawful hnames hresolved hmet
    obtain ⟨more', hplain', rfl⟩ := Meets.below hlawful hnames hresolved hmet'
    obtain ⟨_, name, -, hname, rfl⟩ := mem_entries hlawful hentry
    obtain ⟨_, name', -, hname', hjoin⟩ := mem_entries hlawful hentry'
    exact congrArg ofNames (hinj hplain hplain' hname hname' hjoin).1
  · intro directory hmet hentry
    obtain ⟨more, hplain, rfl⟩ := Meets.below hlawful hnames hresolved hmet
    obtain ⟨_, name, -, hname, hjoin⟩ := mem_entries hlawful hentry
    rw [hresolved, join_ofNames hplain hname] at hjoin
    have hlists := ofNames_inj (fun n hn => (hnames n hn).1)
      (fun n hn => ((List.mem_append.mp hn).elim (hplain n) fun hlast =>
        List.mem_singleton.mp hlast ▸ hname).1) hjoin
    have hlength := congrArg List.length hlists
    simp only [List.length_append, List.length_singleton] at hlength
    omega

/-! ## The loop -/

variable {base : Report} {done : List String}

/-- What holds between two directories. -/
structure Scanning (fs : FileSystem) (ctx : Context) (base : Report) (done : List String)
    (scan : Scan) : Prop where
  frontier : Worklist.Frontier (fs.isKind .directory)
    (entries fs ctx) ctx.resolved done scan.pending
  report : scan.report = tally fs ctx base done
  accessible : ∀ f ∈ met fs ctx done, fs.Accessible f
  opens : ∀ directory ∈ done, Opens fs ctx directory
  limit : scan.report.entriesChecked ≤ ctx.limit
  /-- The clock was read for every entry but the source itself, and it was in time. -/
  ticks : scan.ticks + 1 = scan.report.entriesChecked + scan.report.entriesExcluded
  inTime : ctx.InTime scan.ticks

/-- The directories that are done are among those that were counted. -/
theorem Scanning.length_le (h : Scanning fs ctx base done scan) :
    done.length + scan.pending.length ≤ ctx.limit := by
  have hle :=
    h.frontier.perm.length_eq ▸ List.length_filter_le (fs.isKind .directory) (met fs ctx done)
  have hlimit := h.limit
  rw [h.report, tally] at hlimit
  rw [List.length_append] at hle
  exact hle.trans hlimit

theorem tally_concat (base : Report) (done : List String) (pending : List String) (ticks : Nat) :
    (Scan.through fs ctx ⟨tally fs ctx base done, pending, ticks⟩ (fs.filenames directory)).report =
      tally fs ctx base (done ++ [directory]) := by
  simp [Scan.through, tally, met, Worklist.met_concat, entries, List.countP_append]

variable (ctx) in
theorem length_kept (filenames : List String) :
    (kept ctx filenames).length + filenames.countP ctx.excludes = filenames.length := by
  have hsplit := List.length_eq_countP_add_countP ctx.excludes (l := filenames)
  rw [kept, ← List.countP_eq_length_filter]
  simp only [Bool.not_eq_true, Bool.decide_eq_false] at hsplit
  omega

theorem Scanning.turn (htree : Worklist.Tree (fs.isKind .directory) (entries fs ctx) ctx.resolved)
    {pending : List String} (h : Scanning fs ctx base done scan)
    (hpending : scan.pending = directory :: pending)
    (haccessible : ∀ f ∈ entries fs ctx directory, fs.Accessible f)
    (hopens : Opens fs ctx directory)
    (hnext : next = Scan.through fs ctx { scan with pending } (fs.filenames directory))
    (hlimit : next.report.entriesChecked ≤ ctx.limit) (hinTime : ctx.InTime next.ticks) :
    Scanning fs ctx base (done ++ [directory]) next where
  frontier := by
    have hfrontier := hpending ▸ h.frontier
    rw [hnext]
    exact hfrontier.turn htree (List.reverse_perm _)
  report := by rw [hnext, h.report, tally_concat]
  accessible f hf := by
    rw [met, Worklist.met_concat] at hf
    exact (List.mem_append.mp hf).elim (h.accessible f) (haccessible f)
  opens other hother := (List.mem_append.mp hother).elim (h.opens other) fun hlast =>
    List.mem_singleton.mp hlast ▸ hopens
  limit := hlimit
  ticks := by
    have hlength := length_kept ctx (fs.filenames directory)
    have hticks := h.ticks
    rw [hnext]
    simp only [Scan.through]
    omega
  inTime := hinTime

/-- The report counts paths that the scan can meet, each once. -/
def Counts (fs : FileSystem) (ctx : Context) (report : Report) : Prop :=
  ∃ paths : List String, paths.Nodup ∧ (∀ path ∈ paths, Meets fs ctx path) ∧
    report.entriesChecked = paths.length

/-- The clock is read once for each entry but the source itself. The reading for the entry at
which the report stops is late, and none before it is. -/
def Late (ctx : Context) (report : Report) : Prop :=
  ∃ n, n + 1 = report.entriesChecked + report.entriesExcluded ∧ ctx.late n = true ∧ ctx.InTime n

/-- The ends of a scan that returns. -/
def Reports (fs : FileSystem) (ctx : Context) (base report : Report) : Prop :=
  (∃ done scan, Scanning fs ctx base done scan ∧ scan.pending = [] ∧ report = scan.report) ∨
    Counts fs ctx report ∧ (report.scan = .entryLimit ∧ report.entriesChecked = ctx.limit ∨
      report.scan = .deadline ∧ report.entriesChecked < ctx.limit ∧ Late ctx report)

/-- The ends of a scan that throws. -/
def Refuses (fs : FileSystem) (ctx : Context) (error : SourceAccessError) : Prop :=
  (∃ directory, Meets fs ctx directory ∧ fs.isKind .directory directory = true ∧
    ¬ Opens fs ctx directory ∧
    (resolveSource fs directory = .error error ∨ error.blockedPath = some directory)) ∨
  ∃ path, Meets fs ctx path ∧ error.blockedPath = some path ∧ ¬ fs.Accessible path

/-- A scan that stops in a directory has counted paths that it can meet, and says why it stops. -/
theorem Scanning.stops (htree : Worklist.Tree (fs.isKind .directory) (entries fs ctx) ctx.resolved)
    {pending : List String} (h : Scanning fs ctx base done scan)
    (hpending : scan.pending = directory :: pending)
    (hstops : Stops ctx { scan with pending } (fs.filenames directory) report) :
    Reports fs ctx base report := by
  obtain ⟨front, hfront, hstops⟩ := hstops
  have hchecked := hstops.checked
  have hturn := (hpending ▸ h.frontier).turn htree (List.Perm.refl _)
  have hsublist :
      (met fs ctx done ++ kept ctx front).Sublist (met fs ctx (done ++ [directory])) := by
    rw [met, met, Worklist.met_concat]
    exact (List.Sublist.refl _).append (hfront.sublist.filter _)
  refine .inr ⟨⟨_, hturn.nodup.sublist hsublist,
    fun path hpath => hturn.reached path (hsublist.subset hpath), ?_⟩, ?_⟩
  · rw [hchecked, h.report, List.length_append]
    rfl
  · rcases hstops.why with ⟨hstate, hfull⟩ | ⟨hstate, hbelow, hlate⟩
    · exact .inl ⟨hstate, Nat.le_antisymm (hstops.limit h.limit) hfull⟩
    · refine .inr ⟨hstate, hbelow, scan.ticks + front.length, ?_, hlate, hstops.inTime h.inTime⟩
      have hlength := length_kept ctx front
      have hexcluded : report.entriesExcluded =
          scan.report.entriesExcluded + front.countP ctx.excludes := hstops.excluded
      have hchecked : report.entriesChecked =
          scan.report.entriesChecked + (kept ctx front).length := hchecked
      have hticks := h.ticks
      omega

theorem scanFrom_ends (htree : Worklist.Tree (fs.isKind .directory) (entries fs ctx) ctx.resolved)
    {fuel : Nat} (h : Scanning fs ctx base done scan) (hfuel : ctx.limit + 1 ≤ fuel + done.length) :
    ∃ outcome, scanFrom fs ctx fuel scan = some outcome ∧
      outcome.Ends (Reports fs ctx base) (Refuses fs ctx) := by
  induction fuel generalizing done scan with
  | zero =>
      have hle := h.length_le
      omega
  | succ fuel ih =>
      unfold scanFrom
      cases hpending : scan.pending with
      | nil => exact ⟨_, rfl, .inl ⟨done, scan, h, hpending, rfl⟩⟩
      | cons directory pending =>
          have hfrontier := hpending ▸ h.frontier
          have htop := hfrontier.reached directory hfrontier.top_met.1
          have hends : (expand fs ctx directory { scan with pending }).Ends _ _ := expand_ends _
          dsimp only
          cases hexpand : expand fs ctx directory { scan with pending } with
          | error error =>
              rw [hexpand] at hends
              refine ⟨_, rfl, ?_⟩
              rcases hends with ⟨hclosed, hwhy⟩ | ⟨f, hf, hblocked, hinaccessible⟩
              · exact .inl ⟨directory, htop, hfrontier.top_met.2, hclosed, hwhy⟩
              · exact .inr ⟨f, .tail htop ⟨hfrontier.top_met.2, hf⟩, hblocked, hinaccessible⟩
          | ok flow =>
              rw [hexpand] at hends
              cases flow with
              | returned report => exact ⟨_, rfl, h.stops htree hpending hends⟩
              | on next =>
                  obtain ⟨hopens, haccessible, hlimit, hinTime, hnext⟩ := hends
                  refine ih (h.turn htree hpending haccessible hopens hnext (hlimit h.limit)
                    (hinTime h.inTime)) ?_
                  rw [List.length_append, List.length_singleton]
                  omega

/-! ## The preflight -/

/-- The report counts what the scan can meet, each path once, and all of it is as it has to be. -/
def Exact (fs : FileSystem) (ctx : Context) (report : Report) : Prop :=
  ∃ paths : List String, paths.Nodup ∧ (∀ path, path ∈ paths ↔ Meets fs ctx path) ∧
    report.entriesChecked = paths.length ∧ report.linksNotFollowed =
      paths.countP (fs.isKind .symlink) ∧
    report.entriesExcluded = ((paths.filter (fs.isKind .directory)).map fun directory =>
      (fs.filenames directory).countP ctx.excludes).sum ∧
    ∀ path ∈ paths, fs.Accessible path ∧ (fs.isKind .directory path = true → Opens fs ctx path)

/-- What a scan ends with. It is complete and exact, or it says why it stopped: at the limit, at
the first late reading of the clock, or at a path that it can meet and that is not as it has
to be. -/
def Outcome (fs : FileSystem) (ctx : Context) : Except Failure Report → Prop
  | .ok report =>
    match report.scan with
    | .notRequested => False
    | .complete => Exact fs ctx report
    | .entryLimit => report.entriesChecked = ctx.limit ∧ Counts fs ctx report
    | .deadline => Late ctx report ∧ report.entriesChecked < ctx.limit ∧ Counts fs ctx report
  | .error (.exclusions _) => False
  | .error (.access error) => Refuses fs ctx error

theorem Scanning.exact (h : Scanning fs ctx base done scan) (hpending : scan.pending = []) :
    Exact fs ctx scan.report := by
  have hfrontier := hpending ▸ h.frontier
  have hperm : done.Perm ((met fs ctx done).filter (fs.isKind .directory)) := by
    have hwhole := hfrontier.perm
    rwa [List.append_nil] at hwhole
  refine ⟨met fs ctx done, hfrontier.nodup, hfrontier.finish, ?_, ?_, ?_,
    fun path hpath => ⟨h.accessible path hpath, fun hdirectory => ?_⟩⟩
  · rw [h.report]; rfl
  · rw [h.report]; rfl
  · rw [h.report]
    exact (hperm.map _).sum_nat
  · exact h.opens path (hperm.symm.subset (List.mem_filter.mpr ⟨hpath, hdirectory⟩))

theorem Scanning.start (hkind : fs.isKind .directory ctx.resolved = true)
    (haccessible : fs.Accessible ctx.resolved)
    (hbase : base.entriesChecked = 1 ∧ base.linksNotFollowed = 0 ∧ base.entriesExcluded = 0)
    (hlimit : 1 ≤ ctx.limit) :
    Scanning fs ctx base [] ⟨base, [ctx.resolved], 0⟩ where
  frontier := .start hkind
  report := by
    have hlink : fs.isKind .symlink ctx.resolved = false := by
      rw [Bool.eq_false_iff]
      exact fun h =>
        absurd (Except.ok.inj ((isKind_iff.mp hkind).symm.trans (isKind_iff.mp h))) (by decide)
    obtain ⟨hchecked, hlinks, hexcluded⟩ := hbase
    cases base
    simp_all [tally, met, Worklist.met]
  accessible f hf := by
    rcases Worklist.mem_met.mp hf with rfl | ⟨_, hnil, -⟩
    · exact haccessible
    · exact absurd hnil List.not_mem_nil
  opens _ h := absurd h List.not_mem_nil
  limit := hbase.1 ▸ hlimit
  ticks := by rw [hbase.1, hbase.2.2]
  inTime k hk := absurd hk (Nat.not_lt_zero k)

theorem resolveSource_eq_ok {real : String} :
    resolveSource fs path = .ok real ↔ fs.realpath path = .ok real := by
  unfold resolveSource
  cases hreal : fs.realpath path with
  | ok held => exact ⟨fun h => congrArg _ (Except.ok.inj h), fun h => congrArg _ (Except.ok.inj h)⟩
  | error code =>
      refine ⟨fun h => ?_, fun h => (nomatch h)⟩
      dsimp only at h
      split at h
      · cases hparents : assertTraversableParents fs (linkTarget fs path) path with
        | error error => rw [hparents] at h; exact nomatch h
        | ok _ => rw [hparents] at h; exact nomatch h
      · exact nomatch h

theorem resolveSource_error {code : String} (hreal : fs.realpath path = .error code)
    (hcode : ["EACCES", "EPERM"].contains code = false) :
    resolveSource fs path = .error ⟨if code == "ELOOP" then .sourceSymlinkEscape
      else .sourceMissing, some path,
      some (linkTarget fs path), none⟩ := by
  rw [resolveSource, hreal]
  simp only [hcode]
  rfl

/-! ## From the source on -/

theorem assertSource_ends (candidate : String) (roots : List String) :
    (assertSource fs candidate roots).Ends
    (fun source => fs.realpath source.1 = .ok source.1 ∧ fs.lstat source.1 = .ok source.2 ∧
      fs.Accessible source.1 ∧
      source.2 ≠ .symlink) fun _ => True := by
  unfold assertSource
  refine ends_bind (fun resolved _ => ends_bind (fun _ _ => ?_) fun _ _ => trivial) fun _ _ =>
    trivial
  refine ((check_ends candidate resolved).mono (fun _ h => h) fun _ _ =>
    trivial).bind fun kind hkind => ?_
  refine ends_bind (fun again hagain => Ends.ite (fun _ => trivial) fun hsame =>
    ⟨?_, hkind.1, hkind.2.1, hkind.2.2 rfl⟩) fun _ _ => trivial
  obtain rfl : again = resolved := by simpa using hsame
  exact resolveSource_eq_ok.mp hagain

/-- A source that is no directory is all that there is to meet. -/
theorem exact_single (hkind : fs.lstat ctx.resolved = .ok kind) (hdirectory : kind ≠ .directory)
    (hlink : kind ≠ .symlink) (haccessible : fs.Accessible ctx.resolved)
    (hbase : base.entriesChecked = 1 ∧ base.linksNotFollowed = 0 ∧ base.entriesExcluded = 0) :
    Exact fs ctx base := by
  have hfalse : ∀ asked, kind ≠ asked → fs.isKind asked ctx.resolved = false := fun asked hne => by
    rw [Bool.eq_false_iff]
    exact fun h => hne (Except.ok.inj (hkind.symm.trans (isKind_iff.mp h)))
  have hdirectory := hfalse .directory hdirectory
  have hlink := hfalse .symlink hlink
  refine ⟨[ctx.resolved], List.nodup_singleton _,
    fun path => ⟨fun h => List.mem_singleton.mp h ▸ .refl, fun h => ?_⟩,
    hbase.1, by simp [hlink, hbase.2.1], by simp [hdirectory, hbase.2.2], fun path hpath => ?_⟩
  · induction h with
    | refl => exact List.mem_cons_self
    | tail _ hlead ih =>
        rw [List.mem_singleton.mp ih, hdirectory] at hlead
        exact absurd hlead.1 Bool.false_ne_true
  · obtain rfl := List.mem_singleton.mp hpath
    exact ⟨haccessible, fun h => absurd (hdirectory.symm.trans h) Bool.false_ne_true⟩

theorem bounded_pos (value : Option Nat) (most : Nat) : 1 ≤ bounded value most :=
  Nat.le_max_left _ _

variable {now : Nat → Nat} {letter : Char → Bool} {candidate resolved : String}
  {roots : List String} {options : PreflightOptions} {excluded : String → Bool}

/-! A source with a file, a link and an excluded directory. -/

def sampleKinds : List (String × Kind) :=
  [("/s", .directory), ("/s/f", .file), ("/s/l", .symlink), ("/s/x", .directory)]

/-- Some of the entries cannot be read. -/
def sampleSystem (unreadable : List String) : FileSystem where
  realpath path := if path = "/s" then .ok path else .error "ENOENT"
  lstat path := match sampleKinds.lookup path with
    | some kind => .ok kind
    | none => .error "ENOENT"
  readlink _ := .error "EINVAL"
  access path _ _ := if path ∈ unreadable then .error "EACCES" else .ok ()
  opendir path := if path = "/s" then .ok ⟨["f", "l", "x"], false⟩ else .error "EACCES"

def sampleOptions : PreflightOptions where
  scan := true
  maxEntries := none
  deadlineMs := none
  exclusions := ["x"]
  mandatoryExclusions := []

theorem lawful_sampleSystem (unreadable : List String) : (sampleSystem unreadable).Lawful where
  canonical path real h := by
    simp only [sampleSystem] at h
    split at h
    · rename_i hroot
      obtain rfl := Except.ok.inj h
      exact ⟨["s"], by unfold IsPlain IsName; decide, by rw [hroot]; decide⟩
    · exact nomatch h
  names directory listing h := by
    simp only [sampleSystem] at h
    split at h
    · obtain rfl := Except.ok.inj h
      exact ⟨by decide, by unfold IsPlain IsName; decide⟩
    · exact nomatch h

theorem assertSource_sampleSystem :
    assertSource (sampleSystem []) "/s" ["/s"] = .ok ("/s", .directory) ∧
    assertSource (sampleSystem ["/s/x"]) "/s" ["/s"] = .ok ("/s", .directory) := by
  decide +kernel

theorem filters_sampleOptions : (filters Char.isAlpha sampleOptions).map (· "x") = .ok true := by
  decide +kernel

/-- A scan of a source ends, with what it may end with. -/
theorem preflightSource_scan (hlawful : fs.Lawful) (hscan : options.scan = true)
    (hfilters : filters letter options = .ok excluded)
    (hsource : assertSource fs candidate roots = .ok (resolved, kind)) :
    ∃ outcome, preflightSource fs now letter candidate roots options = some outcome ∧
      Outcome fs (scanContext now candidate resolved excluded options) outcome := by
  obtain ⟨hreal, hkind, haccessible, hlink⟩ := (assertSource_ends candidate roots).of_ok hsource
  have hcanonical : Canonical (scanContext now candidate resolved excluded options).resolved :=
    hlawful.canonical _ _ hreal
  have hpreflight : preflightSource fs now letter candidate roots options =
      if kind != .directory then some (.ok (firstReport candidate resolved options))
      else (scanFrom fs (scanContext now candidate resolved excluded options)
        (bounded options.maxEntries 10000 + 1)
        ⟨firstReport candidate resolved options, [resolved], 0⟩).map fun outcome =>
          outcome.mapError .access := by
    rw [preflightSource, hfilters, hsource]
    simp only [hscan, Bool.not_true, Bool.false_or]
    rfl
  have hcomplete : (firstReport candidate resolved options).scan = .complete := by
    rw [firstReport, hscan]; rfl
  rw [hpreflight]
  by_cases hdirectory : kind = .directory
  · subst hdirectory
    have hstart : Scanning fs (scanContext now candidate resolved excluded options)
        (firstReport candidate resolved options) []
        ⟨firstReport candidate resolved options, [resolved], 0⟩ :=
      Scanning.start (isKind_iff.mpr hkind) haccessible ⟨rfl, rfl, rfl⟩ (bounded_pos _ _)
    obtain ⟨outcome, houtcome, hends⟩ :=
      scanFrom_ends (tree_entries hlawful hcanonical) hstart (Nat.le_refl _)
    rw [if_neg (by decide)]
    refine ⟨_, congrArg (Option.map _) houtcome, ?_⟩
    cases outcome with
    | error error => exact hends
    | ok report =>
        rcases hends with ⟨done, scan, hscanning, hpending, rfl⟩ | ⟨hcounts, hstop⟩
        · have hstate : scan.report.scan = .complete := by rw [hscanning.report]; exact hcomplete
          simp only [Outcome, Except.mapError, hstate]
          exact hscanning.exact hpending
        · rcases hstop with ⟨hstate, hchecked⟩ | ⟨hstate, hbelow, hlate⟩
          · simp only [Outcome, Except.mapError, hstate]
            exact ⟨hchecked, hcounts⟩
          · simp only [Outcome, Except.mapError, hstate]
            exact ⟨hlate, hbelow, hcounts⟩
  · rw [if_pos (by simpa using hdirectory)]
    refine ⟨_, rfl, ?_⟩
    simp only [Outcome, hcomplete]
    exact exact_single hkind hdirectory hlink haccessible ⟨rfl, rfl, rfl⟩

theorem preflightSource_scan_of_sample :
    ∃ excluded, filters Char.isAlpha sampleOptions = .ok excluded ∧
    ∃ outcome, preflightSource (sampleSystem []) id Char.isAlpha "/s"
      ["/s"] sampleOptions = some outcome ∧
      Outcome (sampleSystem []) (scanContext id "/s" "/s" excluded sampleOptions) outcome := by
  have hfilters := filters_sampleOptions
  cases hread : filters Char.isAlpha sampleOptions with
  | error message => rw [hread] at hfilters; exact nomatch hfilters
  | ok excluded =>
      exact ⟨excluded, rfl,
        preflightSource_scan (lawful_sampleSystem []) rfl hread assertSource_sampleSystem.1⟩

/-! ## What the preflight never looks at -/

variable {fs' : FileSystem} {pending : List String}

/-- Two file systems give the same answers where the scan asks: of a link it asks nothing more
than that it is one, and only of a directory what is in it. -/
structure Agrees (fs fs' : FileSystem) (path : String) : Prop where
  lstat : fs.lstat path = fs'.lstat path
  access : fs.lstat path ≠ .ok .symlink → fs.access path = fs'.access path
  directory : fs.isKind .directory path = true →
    resolveSource fs path = resolveSource fs' path ∧ fs.opendir path = fs'.opendir path

theorem Agrees.check (h : Agrees fs fs' path) (candidate resolved : String) :
    check fs candidate resolved path root = check fs' candidate resolved path root := by
  unfold SourcePreflight.check
  rw [← h.lstat]
  cases hkind : fs.lstat path with
  | error code => rfl
  | ok kind =>
      cases kind with
      | symlink | other => rfl
      | file | directory => rw [h.access (by rw [hkind]; decide)]

theorem visit_congr
    (h : ctx.excludes (join directory name) = false → Agrees fs fs' (join directory name))
    (scan : Scan) :
    visit fs ctx directory scan name = visit fs' ctx directory scan name := by
  unfold visit
  cases hexcluded : ctx.excludes (join directory name) with
  | true => simp only [hexcluded]; rfl
  | false => simp only [hexcluded, (h hexcluded).check]

theorem visitAll_congr (h : ∀ f ∈ kept ctx (names.map (join directory)), Agrees fs fs' f)
    (scan : Scan) :
    visitAll fs ctx directory names scan = visitAll fs' ctx directory names scan := by
  induction names generalizing scan with
  | nil => rfl
  | cons name names ih =>
      rw [List.map_cons, kept_cons] at h
      unfold visitAll
      have hfirst : visit fs ctx directory scan name = visit fs' ctx directory scan name :=
        visit_congr (fun hexcluded => h _ (by rw [hexcluded]; exact List.mem_cons_self)) scan
      rw [hfirst]
      have hrest : ∀ f ∈ kept ctx (names.map (join directory)),
          Agrees fs fs' f := fun f hf => h f (by
        split
        · exact hf
        · exact List.mem_cons_of_mem _ hf)
      simp only [ih hrest]

theorem expand_congr (hdirectory : fs.isKind .directory directory = true)
    (h : Agrees fs fs' directory) (hentries : ∀ f ∈ entries fs ctx directory, Agrees fs fs' f)
    (scan : Scan) :
    expand fs ctx directory scan = expand fs' ctx directory scan := by
  obtain ⟨hresolve, hopendir⟩ := h.directory hdirectory
  unfold expand
  rw [← hresolve, ← hopendir]
  cases hlisting : fs.opendir directory with
  | error code => rfl
  | ok listing =>
      rw [entries, FileSystem.filenames, hlisting] at hentries
      simp only [visitAll_congr hentries]

theorem scanFrom_congr (h : ∀ path, Meets fs ctx path → Agrees fs fs' path) {fuel : Nat}
    (hpending : ∀ path ∈ scan.pending, Meets fs ctx path ∧ fs.isKind .directory path = true) :
    scanFrom fs ctx fuel scan = scanFrom fs' ctx fuel scan := by
  induction fuel generalizing scan with
  | zero => rfl
  | succ fuel ih =>
      unfold scanFrom
      cases hlist : scan.pending with
      | nil => rfl
      | cons directory pending =>
          rw [hlist] at hpending
          obtain ⟨hmeets, hdirectory⟩ := hpending directory List.mem_cons_self
          have hentries : ∀ f ∈ entries fs ctx directory, Meets fs ctx f := fun f hf =>
            .tail hmeets ⟨hdirectory, hf⟩
          dsimp only
          rw [← expand_congr hdirectory (h directory hmeets) fun f hf => h f (hentries f hf)]
          have hends : (expand fs ctx directory { scan with pending }).Ends _ _ := expand_ends _
          cases hexpand : expand fs ctx directory { scan with pending } with
          | error error => rfl
          | ok flow =>
              cases flow with
              | returned report => rfl
              | on next =>
                  rw [hexpand] at hends
                  refine ih fun path hpath => ?_
                  rw [hends.2.2.2.2] at hpath
                  rcases List.mem_append.mp hpath with hpath | hpath
                  · obtain ⟨hentry, hkind⟩ := List.mem_filter.mp (List.mem_reverse.mp hpath)
                    exact ⟨hentries path hentry, hkind⟩
                  · exact hpending path (List.mem_cons_of_mem _ hpath)

/-- A preflight asks nothing about what is excluded or behind a link: file systems that agree
on the source and on what the scan can meet give the same outcome. -/
theorem preflightSource_agrees
    (hsource : assertSource fs candidate roots = assertSource fs' candidate roots)
    (h : ∀ excluded resolved, filters letter options = .ok excluded →
      assertSource fs candidate roots = .ok (resolved, .directory) →
      ∀ path, Meets fs (scanContext now candidate resolved excluded options) path →
        Agrees fs fs' path) :
    preflightSource fs now letter candidate roots options =
      preflightSource fs' now letter candidate roots options := by
  unfold preflightSource
  rw [← hsource]
  cases hfilters : filters letter options with
  | error message => rfl
  | ok excluded =>
      cases hfound : assertSource fs candidate roots with
      | error error => rfl
      | ok source =>
          obtain ⟨resolved, kind⟩ := source
          obtain ⟨-, hkind, -⟩ := (assertSource_ends candidate roots).of_ok hfound
          dsimp only
          cases hdirectory : kind == .directory with
          | false => simp [bne, hdirectory]
          | true =>
              obtain rfl := eq_of_beq hdirectory
              rw [scanFrom_congr (h excluded resolved hfilters hfound) fun path hpath => ?_]
              obtain rfl := List.mem_singleton.mp hpath
              exact ⟨.refl, isKind_iff.mpr hkind⟩

/-- What is in the excluded directory, and whether it can be read, makes no difference. -/
theorem preflightSource_agrees_of_sample :
    preflightSource (sampleSystem []) id Char.isAlpha "/s" ["/s"] sampleOptions =
      preflightSource (sampleSystem ["/s/x"]) id Char.isAlpha "/s" ["/s"] sampleOptions := by
  refine preflightSource_agrees (assertSource_sampleSystem.1.trans assertSource_sampleSystem.2.symm)
    fun excluded resolved hread hsource path hmeets => ?_
  obtain rfl : resolved = "/s" :=
    (Prod.mk.inj (Except.ok.inj (hsource.symm.trans assertSource_sampleSystem.1))).1
  have hexcluded : excluded "x" = true := by
    have hfilters := filters_sampleOptions
    rw [hread] at hfilters
    exact Except.ok.inj hfilters
  have hway : relative "/s" "/s/x" = "x" := by decide +kernel
  have hne : path ≠ "/s/x" := by
    rintro rfl
    rcases hmeets.cases_tail with heq | ⟨directory, -, -, hentry⟩
    · have hroot : "/s/x" = "/s" := heq
      exact absurd hroot (by decide)
    · have hkept := (List.mem_filter.mp hentry).2
      simp [Context.excludes, scanContext, hway, hexcluded] at hkept
  have hresolve : resolveSource (sampleSystem []) path =
      resolveSource (sampleSystem ["/s/x"]) path := by
    by_cases hroot : path = "/s"
    · rw [resolveSource_eq_ok.mpr (if_pos hroot), resolveSource_eq_ok.mpr (if_pos hroot)]
    · rw [resolveSource_error (if_neg hroot) (by decide),
        resolveSource_error (if_neg hroot) (by decide)]
      rfl
  exact ⟨rfl, fun _ => by simp [sampleSystem, hne], fun _ => ⟨hresolve, rfl⟩⟩

end

end Pluton.SourcePreflight
