-- SUMMARY: When the agent excludes exactly the patterns that the server read.
import Mathlib.Algebra.Order.BigOperators.Group.List
import Mathlib.Algebra.Order.Group.Nat
import Pluton.Envelope.Agreement
import Pluton.TrimmedText

/-!
# What the agent reads of the exclusions that the server read

The server reads the patterns of a backup and sends what it read; the agent reads that
list again, and once more when it anchors the patterns at the source. A pattern is
trimmed before the slash at its end is removed, and is not trimmed after it: reading is
done after one pass unless there is white space before that slash.
-/
namespace Pluton.Envelope

open Except Lifecycle
open Js (Trimmed head?_of_isPrefixOf trimmed_trim trim_of_trimmed trim_sublist)

variable {letter : Char → Bool} {item pattern : String} {patterns : List String}

/-! ## One pattern -/

/-- `item.trim().replace(/\/$/, "")` -/
def normalised (item : String) : String := stripSlash (Js.trim item)

/-- The trimmed item does not end in white space and a slash. -/
def settled (item : String) : Bool :=
  match (Js.trim item).toList.reverse with
  | '/' :: ch :: _ => !Js.isWhitespace ch
  | _ => true

theorem stripSlash_toList (text : String) :
    (∃ chars, text.toList = chars ++ ['/'] ∧ (stripSlash text).toList = chars) ∨
      ((∀ ch ∈ text.toList.getLast?, ch ≠ '/') ∧ stripSlash text = text) := by
  unfold stripSlash
  split
  · next hends =>
      obtain ⟨chars, hchars⟩ := List.isSuffixOf_iff_suffix.mp hends
      refine .inl ⟨chars, hchars.symm, ?_⟩
      rw [String.toList_ofList, ← hchars]
      exact List.dropLast_concat
  · next hends =>
      refine .inr ⟨fun ch hch heq => hends ?_, rfl⟩
      obtain ⟨chars, hchars⟩ := List.getLast?_eq_some_iff.mp hch
      rw [heq] at hchars
      exact List.isSuffixOf_iff_suffix.mpr ⟨chars, hchars.symm⟩

theorem length_normalised_le (item : String) :
    (normalised item).toList.length ≤ (Js.trim item).toList.length := by
  rcases stripSlash_toList (Js.trim item) with ⟨chars, htrim, hstrip⟩ | ⟨-, hstrip⟩
  · rw [normalised, hstrip, htrim]
    simp
  · rw [normalised, hstrip]

/-- What is asked of a pattern apart from the sum of the lengths. -/
structure Accepted (letter : Char → Bool) (item : String) : Prop where
  controls : unsafeControls item = false
  pattern : unsafePattern letter (normalised item) = false
  length : Js.length (normalised item) ≤ 512

/-- No part of an accepted pattern is empty, so it does not end in a slash. -/
theorem not_slash_of_safe (h : unsafePattern letter pattern = false) :
    ∀ ch ∈ pattern.toList.getLast?, ch ≠ '/' := by
  intro ch hch heq
  obtain ⟨chars, hchars⟩ := List.getLast?_eq_some_iff.mp hch
  have hmem : "" ∈ Js.split '/' pattern := by
    unfold Js.split
    rw [hchars, heq, List.splitOn_append_cons_self]
    simp
  unfold unsafePattern at h
  simp only [Bool.or_eq_false_iff, List.any_eq_false] at h
  exact h.2 "" hmem (by simp [partPattern])

theorem toList_ne_nil_of_safe (h : unsafePattern letter pattern = false) : pattern.toList ≠ [] := by
  intro hnil
  obtain rfl : pattern = "" := String.toList_inj.mp hnil
  simp [unsafePattern] at h

theorem trimmed_normalised_iff (h : Accepted letter item) :
    Trimmed (normalised item).toList ↔ settled item = true := by
  have hne := toList_ne_nil_of_safe h.pattern
  have htrimmed := trimmed_trim item
  rcases stripSlash_toList (Js.trim item) with ⟨chars, htrim, hstrip⟩ | ⟨hnot, hstrip⟩
  · have hchars : (normalised item).toList = chars := hstrip
    rw [hchars] at hne ⊢
    obtain ⟨front, ch, rfl⟩ := (List.eq_nil_or_concat' chars).resolve_left hne
    have hsettled : settled item = !Js.isWhitespace ch := by
      unfold settled
      rw [htrim]
      simp
    rw [hsettled, Bool.not_eq_true']
    constructor
    · intro hedges
      exact hedges.last ch (by simp)
    · intro hch
      refine ⟨fun first hfirst => htrimmed.head first ?_, fun last hlast => ?_⟩
      · rw [htrim]
        exact head?_of_isPrefixOf (List.prefix_append _ _) hfirst
      · obtain rfl : ch = last := by simpa using hlast
        exact hch
  · have hsame : normalised item = Js.trim item := hstrip
    have hsettled : settled item = true := by
      unfold settled
      split
      · next ch rest hreverse =>
          refine absurd rfl (hnot '/' ?_)
          rw [← List.head?_reverse, hreverse]
          rfl
      · rfl
    exact iff_of_true (hsame ▸ htrimmed) hsettled

/-- Reading an accepted pattern again keeps it, unless it ends in white space. -/
theorem normalised_fixed_iff (h : Accepted letter item) :
    normalised (normalised item) = normalised item ↔ settled item = true := by
  rw [← trimmed_normalised_iff h]
  constructor
  · intro hsame
    have hlength := length_normalised_le (normalised item)
    rw [hsame] at hlength
    have htrim := (trim_sublist (normalised item)).eq_of_length_le hlength
    exact htrim ▸ trimmed_trim (normalised item)
  · intro htrimmed
    have htrim := trim_of_trimmed htrimmed
    rcases stripSlash_toList (normalised item) with ⟨chars, hchars, -⟩ | ⟨-, hstrip⟩
    · exact absurd rfl (not_slash_of_safe h.pattern '/' (by rw [hchars]; simp))
    · unfold normalised at htrim hstrip ⊢
      rw [htrim, hstrip]

/-! ## A list of patterns -/

/-- `pattern.length`, added up. -/
def totalLength (patterns : List String) : Nat := (patterns.map Js.length).sum

theorem readPattern_eq_ok {units index : Nat} {done : Nat × List String} {value : Json} :
    readPattern letter (units, patterns) (value, index) = .ok done ↔
      ∃ item, value = .str item ∧ Accepted letter item ∧
        units + Js.length (normalised item) ≤ 16384 ∧
        done = (units + Js.length (normalised item), patterns ++ [normalised item]) := by
  cases value with
  | str text =>
      simp only [readPattern, Json.str.injEq, exists_eq_left']
      constructor
      · intro h
        split at h
        · cases h
        · next hcontrols =>
            split at h
            · cases h
            · next hsafe =>
                simp only [Bool.or_eq_true, decide_eq_true_eq, not_or, Nat.not_lt,
                  Bool.not_eq_true] at hsafe
                exact ⟨⟨by simpa using hcontrols, hsafe.1.1, hsafe.1.2⟩, hsafe.2,
                  (Except.ok.inj h).symm⟩
      · rintro ⟨haccepted, hunits, rfl⟩
        have hlength := haccepted.length
        have hsafe := haccepted.pattern
        unfold normalised at hlength hsafe hunits ⊢
        simp [haccepted.controls, hsafe, Nat.not_lt.mpr hlength, Nat.not_lt.mpr hunits]
  | _ => exact iff_of_false nofun (by simp)

theorem readPatterns_eq_ok {entries : List (Json × Nat)} {units : Nat} {done : Nat × List String}
    (hunits : units ≤ 16384) :
    entries.foldlM (readPattern letter) (units, patterns) = .ok done ↔
      ∃ items : List String, entries.map Prod.fst = items.map Json.str ∧
        (∀ item ∈ items, Accepted letter item) ∧
        units + totalLength (items.map normalised) ≤ 16384 ∧
        done = (units + totalLength (items.map normalised), patterns ++ items.map normalised) := by
  induction entries generalizing units patterns with
  | nil =>
      simp only [List.foldlM_nil, pure_eq_ok, List.map_nil]
      constructor
      · rintro rfl
        exact ⟨[], rfl, by simp, by simpa [totalLength] using hunits, by simp [totalLength]⟩
      · rintro ⟨items, hitems, -, -, hdone⟩
        obtain rfl : items = [] := by simpa using hitems.symm
        simpa [totalLength] using hdone.symm
  | cons entry entries ih =>
      obtain ⟨value, index⟩ := entry
      simp only [List.foldlM_cons, bind_eq_ok, readPattern_eq_ok]
      constructor
      · rintro ⟨next, ⟨item, hitem, haccepted, hnext, rfl⟩, hrest⟩
        obtain ⟨items, hitems, hall, hsum, hdone⟩ := (ih hnext).mp hrest
        refine ⟨item :: items, by simp [hitem, hitems],
          List.forall_mem_cons.mpr ⟨haccepted, hall⟩, ?_, ?_⟩
        · simpa [totalLength, Nat.add_assoc] using hsum
        · simpa [totalLength, Nat.add_assoc] using hdone
      · rintro ⟨items, hitems, hall, hsum, hdone⟩
        cases items with
        | nil => simp at hitems
        | cons item items =>
            simp only [List.map_cons, List.cons.injEq] at hitems
            obtain ⟨haccepted, hall⟩ := List.forall_mem_cons.mp hall
            have hrest : units + Js.length (normalised item) +
                totalLength (items.map normalised) ≤ 16384 := by
              simpa [totalLength, Nat.add_assoc] using hsum
            have hnext : units + Js.length (normalised item) ≤ 16384 := by omega
            refine ⟨_, ⟨item, hitems.1, haccepted, hnext, rfl⟩,
              (ih hnext).mpr ⟨items, hitems.2, hall, hrest, ?_⟩⟩
            simpa [totalLength, Nat.add_assoc] using hdone

theorem parseBackupExclusions_eq_ok {values : List Json} :
    parseBackupExclusions letter (some (.arr values)) = .ok patterns ↔
      values.length ≤ 100 ∧ ∃ items : List String, values = items.map Json.str ∧
        (∀ item ∈ items, Accepted letter item) ∧ totalLength (items.map normalised) ≤ 16384 ∧
        patterns = (items.map normalised).eraseDups := by
  simp only [parseBackupExclusions]
  split
  · next hmany => exact iff_of_false nofun fun h => absurd h.1 (Nat.not_le.mpr hmany)
  · next hfew =>
      simp only [map_eq_ok, readPatterns_eq_ok (Nat.zero_le 16384), List.zipIdx_map_fst,
        Nat.zero_add, List.nil_append]
      constructor
      · rintro ⟨_, ⟨items, hitems, hall, hsum, rfl⟩, hpatterns⟩
        exact ⟨Nat.not_lt.mp hfew, items, hitems, hall, hsum, hpatterns.symm⟩
      · rintro ⟨-, items, hitems, hall, hsum, hpatterns⟩
        exact ⟨_, ⟨items, hitems, hall, hsum, rfl⟩, hpatterns.symm⟩

theorem parseTexts_eq_ok {items patterns : List String} :
    parseBackupExclusions letter (some (Json.texts items)) = .ok patterns ↔
      items.length ≤ 100 ∧ (∀ item ∈ items, Accepted letter item) ∧
        totalLength (items.map normalised) ≤ 16384 ∧
        patterns = (items.map normalised).eraseDups := by
  have hinj : Function.Injective (List.map Json.str) :=
    List.map_injective_iff.mpr fun _ _ => Json.str.inj
  simp only [Json.texts, parseBackupExclusions_eq_ok, List.length_map, hinj.eq_iff, exists_eq_left']

/-! ## The list that was read -/

theorem eraseDups_sublist (items : List String) : items.eraseDups.Sublist items := by
  induction h : items.length using Nat.strong_induction_on generalizing items with
  | _ n ih =>
      cases items with
      | nil => simp
      | cons item items =>
          rw [List.eraseDups_cons]
          have hle := List.length_filter_le (fun other => !other == item) items
          simp only [List.length_cons] at h
          exact ((ih _ (by omega) _ rfl).trans List.filter_sublist).cons_cons item

theorem eraseDups_of_nodup {items : List String} (h : items.Nodup) : items.eraseDups = items := by
  induction items with
  | nil => simp
  | cons item items ih =>
      obtain ⟨hnot, hnodup⟩ := List.nodup_cons.mp h
      have hfilter : items.filter (fun other => !other == item) = items :=
        List.filter_eq_self.mpr fun other hother => by
          have hne : other ≠ item := fun heq => hnot (heq ▸ hother)
          simpa using hne
      rw [List.eraseDups_cons, hfilter, ih hnodup]

theorem nodup_eraseDups (items : List String) : items.eraseDups.Nodup := by
  induction h : items.length using Nat.strong_induction_on generalizing items with
  | _ n ih =>
      cases items with
      | nil => simp
      | cons item items =>
          rw [List.eraseDups_cons]
          have hle := List.length_filter_le (fun other => !other == item) items
          simp only [List.length_cons] at h
          refine List.nodup_cons.mpr ⟨fun hmem => ?_, ih _ (by omega) _ rfl⟩
          have hfiltered := (List.mem_filter.mp (List.mem_eraseDups.mp hmem)).2
          simp at hfiltered

theorem eq_of_eraseDups_length {items : List String} (h : items.length ≤ items.eraseDups.length) :
    items.eraseDups = items :=
  (eraseDups_sublist items).eq_of_length_le h

theorem unsafeControls_of_sublist {text text' : String} (hsub : text.toList.Sublist text'.toList)
    (h : unsafeControls text' = false) : unsafeControls text = false := by
  unfold unsafeControls at h ⊢
  rw [List.any_eq_false] at h ⊢
  exact fun ch hch => h ch (hsub.subset hch)

theorem normalised_sublist (item : String) : (normalised item).toList.Sublist item.toList := by
  have htrim := trim_sublist item
  rcases stripSlash_toList (Js.trim item) with ⟨chars, hchars, hstrip⟩ | ⟨-, hstrip⟩
  · rw [normalised, hstrip]
    exact (List.sublist_append_left chars ['/']).trans (hchars ▸ htrim)
  · rw [normalised, hstrip]
    exact htrim

theorem Accepted.again (h : Accepted letter item)
    (hsame : normalised (normalised item) = normalised item) :
    Accepted letter (normalised item) where
  controls := unsafeControls_of_sublist (normalised_sublist item) h.controls
  pattern := hsame.symm ▸ h.pattern
  length := hsame.symm ▸ h.length

/-- Reading the patterns again gives them back exactly if no item of the first list ends in
white space and a slash. -/
theorem parse_again_iff {items patterns : List String}
    (h : parseBackupExclusions letter (some (Json.texts items)) = .ok patterns) :
    parseBackupExclusions letter (some (Json.texts patterns)) = .ok patterns ↔
    ∀ item ∈ items, settled item = true := by
  obtain ⟨hmany, hall, hsum, rfl⟩ := parseTexts_eq_ok.mp h
  have hsub := eraseDups_sublist (items.map normalised)
  have hmem : ∀ item ∈ items, normalised item ∈ (items.map normalised).eraseDups :=
    fun item hitem =>
      List.mem_eraseDups.mpr (List.mem_map_of_mem hitem)
  rw [parseTexts_eq_ok]
  constructor
  · rintro ⟨-, -, -, hagain⟩ item hitem
    have hlength := congrArg List.length hagain
    have hsame : ((items.map normalised).eraseDups.map normalised).eraseDups =
        (items.map normalised).eraseDups.map normalised :=
      eq_of_eraseDups_length (by rw [← hlength, List.length_map])
    rw [hsame] at hagain
    have hfixed : ∀ pattern ∈ (items.map normalised).eraseDups, normalised pattern = pattern :=
      List.map_inj_left.mp (hagain.symm.trans (List.map_id _).symm)
    exact (normalised_fixed_iff (hall item hitem)).mp (hfixed _ (hmem item hitem))
  · intro hsettled
    have hfixed : ∀ item ∈ items,
        normalised (normalised item) = normalised item := fun item hitem =>
      (normalised_fixed_iff (hall item hitem)).mpr (hsettled item hitem)
    have hpatterns : ∀ pattern ∈ (items.map normalised).eraseDups,
        ∃ item ∈ items, normalised item = pattern :=
      fun pattern hpattern => List.mem_map.mp (List.mem_eraseDups.mp hpattern)
    have hmap : (items.map normalised).eraseDups.map normalised =
        (items.map normalised).eraseDups := by
      refine (List.map_congr_left fun pattern hpattern => ?_).trans (List.map_id _)
      obtain ⟨item, hitem, rfl⟩ := hpatterns pattern hpattern
      rw [hfixed item hitem, id_eq]
    rw [hmap, eraseDups_of_nodup (nodup_eraseDups _)]
    refine ⟨?_, fun pattern hpattern => ?_, ?_, rfl⟩
    · have hle := hsub.length_le
      rw [List.length_map] at hle
      exact Nat.le_trans hle hmany
    · obtain ⟨item, hitem, rfl⟩ := hpatterns pattern hpattern
      exact (hall item hitem).again (hfixed item hitem)
    · have hle := (hsub.map Js.length).sum_le_sum fun _ _ => Nat.zero_le _
      exact Nat.le_trans hle hsum

/-! ## The agent's lists -/

/-- The sources that `sourceResticExclusions` anchors patterns at. -/
def canAnchor (source : String) : Bool :=
  Js.startsWith "/" source && !unsafeControls source &&
    !(['*', '?', '[', ']', '\\'].any fun ch => Js.includes ch source) &&
    !(Js.split '/' source).contains ".."

/-- The agent has the patterns as the server read them: it reads them so from the command,
whatever else the command holds, and anchors these at the source. -/
structure Kept (letter : Char → Bool) (patterns : List String) : Prop where
  read : ∀ sent : Option RemoteLifecycle,
    readExcludes letter (envelopeVersion patterns sent) (some (Json.texts patterns)) = .ok patterns
  payload : ∀ {cryptr : Cryptr} (records : ManagedRecords cryptr) (materials : Materials)
    (fold : String → String)
    (parsed : BackupFilesystemPayload), materials.excludes = patterns →
      parseBackupFilesystemPayload fold letter (payloadOf records materials) = .ok parsed →
      parsed.excludes = patterns
  filters : ∀ source, canAnchor source = true →
    sourceResticExclusions letter source patterns = .ok (patterns.map (anchored source))

theorem readExcludes_sent (sent : Option RemoteLifecycle)
    (h : parseBackupExclusions letter (some (Json.texts patterns)) = .ok patterns) :
    readExcludes letter (envelopeVersion patterns sent)
      (some (Json.texts patterns)) = .ok patterns := by
  unfold readExcludes
  cases hempty : patterns.isEmpty with
  | false => cases sent <;> simpa [hempty] using h
  | true =>
      rw [List.isEmpty_iff.mp hempty]
      cases sent with
      | none => rfl
      | some lifecycle =>
          rw [envelopeVersion_some]
          cases lifecycle.isSingle <;> rfl

theorem excludes_of_parsed {cryptr : Cryptr} {records : ManagedRecords cryptr}
    {materials : Materials} {fold : String → String} {parsed : BackupFilesystemPayload}
    (h : parseBackupFilesystemPayload fold letter (payloadOf records materials) = .ok parsed) :
    readExcludes letter (envelopeVersion materials.excludes materials.lifecycle)
      (some (Json.texts materials.excludes)) =
      .ok parsed.excludes := by
  unfold parseBackupFilesystemPayload at h
  simp only [bind_eq_ok, pure_eq_ok, payloadVersion_payloadOf, Except.ok.injEq,
    exists_eq_left'] at h
  obtain ⟨_, -, _, -, _, -, _, -, _, -, _, -, _, -, _, -, _, -, _, -, _, -, _, -, excludes,
      hexcludes, _, -, _, -, rfl⟩ := h
  simpa [payloadOf] using hexcludes

theorem sourceResticExclusions_eq {source : String} (hsource : canAnchor source = true)
    (h : parseBackupExclusions letter (some (Json.texts patterns)) = .ok patterns) :
    sourceResticExclusions letter source patterns = .ok (patterns.map (anchored source)) := by
  unfold canAnchor at hsource
  simp only [Bool.and_eq_true, Bool.not_eq_true'] at hsource
  obtain ⟨⟨⟨hstart, hcontrols⟩, hwild⟩, hparent⟩ := hsource
  unfold sourceResticExclusions
  simp only [bind_eq_ok, refuseIf_eq_ok, pure_eq_ok, h, Except.ok.injEq, exists_eq_left']
  exact ⟨(), by rw [hstart, hcontrols, hwild, hparent]; rfl, trivial⟩

theorem kept_iff :
    Kept letter patterns ↔
    parseBackupExclusions letter (some (Json.texts patterns)) = .ok patterns := by
  constructor
  · intro h
    have hread := h.read none
    cases hempty : patterns.isEmpty with
    | false => simpa [readExcludes, hempty] using hread
    | true =>
        rw [List.isEmpty_iff.mp hempty]
        rfl
  · intro h
    refine ⟨fun sent => readExcludes_sent sent h, ?_,
      fun source hsource => sourceResticExclusions_eq hsource h⟩
    intro cryptr records materials fold parsed hexcludes hparsed
    have hread := excludes_of_parsed hparsed
    rw [hexcludes, readExcludes_sent _ h] at hread
    exact (Except.ok.inj hread).symm

/-- The agent excludes exactly what the server read if and only if no item of the list ends,
when it is trimmed, in white space and a slash. -/
theorem exclusions_kept (letter : Char → Bool) (values : List Json) (patterns : List String)
    (h : parseBackupExclusions letter (some (.arr values)) = .ok patterns) :
    Kept letter patterns ↔ ∀ item, Json.str item ∈ values → settled item = true := by
  obtain ⟨-, items, rfl, -⟩ := parseBackupExclusions_eq_ok.mp h
  rw [kept_iff, parse_again_iff h]
  constructor
  · intro hall item hitem
    obtain ⟨item', hitem', heq⟩ := List.mem_map.mp hitem
    exact Json.str.inj heq ▸ hall item' hitem'
  · intro hall item hitem
    exact hall item (List.mem_map_of_mem hitem)

/-- A slash at the end of a name, and a name given twice. -/
theorem exclusions_kept_caches : Kept Char.isAlphanum ["cache", "*.tmp", "build/**"] :=
  (exclusions_kept Char.isAlphanum [.str " cache/ ", .str "*.tmp", .str "cache", .str "build/**"] _
    (by decide +kernel)).mpr (by
      intro item hitem
      simp only [List.mem_cons, Json.str.injEq, List.not_mem_nil, or_false] at hitem
      rcases hitem with rfl | rfl | rfl | rfl <;> decide +kernel)

/-- The agent excludes `cache` where the server read `cache` with a space at its end, and
refuses the command where the server read a dot and a space. -/
theorem exclusions_changed :
    parseBackupExclusions Char.isAlphanum (some (Json.texts ["cache /"])) = .ok ["cache "] ∧
    readExcludes Char.isAlphanum (envelopeVersion ["cache "] none)
      (some (Json.texts ["cache "])) = .ok ["cache"] ∧
    sourceResticExclusions Char.isAlphanum "/srv" ["cache "] = .ok ["/srv/**/cache"] ∧
    parseBackupExclusions Char.isAlphanum (some (Json.texts [". /"])) = .ok [". "] ∧
    readExcludes Char.isAlphanum (envelopeVersion [". "] none) (some (Json.texts [". "])) =
      .error (invalidPattern 0) ∧
    ¬ Kept Char.isAlphanum ["cache "] := by
  refine ⟨by decide +kernel, by decide +kernel, by decide +kernel, by decide +kernel,
    by decide +kernel, ?_⟩
  intro hkept
  exact absurd (hkept.read none) (by decide +kernel)

end Pluton.Envelope
