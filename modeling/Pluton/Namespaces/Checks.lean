-- SUMMARY: A reservation that is granted found every row of the database clear of it.
import Pluton.Namespaces.Clear

/-!
# The checks of a reservation

The checks share a cache of the storages they looked up. Every entry of it is what a
lookup in the database would return, so a cached check decides what an uncached one
would.
-/
namespace Pluton.Namespaces

open Except

/-- Every entry is what the lookup returns. -/
def CacheSound (env : Env) (db : Database) (cache : ResolutionCache) : Prop :=
  ∀ id resolution, cache.lookup id = some resolution →
    lookupResolution env db none id = .ok resolution

variable {env : Env} {db : Database} {selected : Scope} {cache cache' : ResolutionCache}
  {reference : Reference}

theorem cacheSound_nil : CacheSound env db [] := by
  intro id resolution h
  cases h

theorem CacheSound.set {id : String} {resolution : Resolution} (h : CacheSound env db cache)
    (hid : lookupResolution env db none id = .ok resolution) :
    CacheSound env db (Js.mapSet cache id resolution) := by
  intro other found hfound
  by_cases hother : other = id
  · subst hother
    rw [Js.lookup_mapSet_self] at hfound
    cases hfound
    exact hid
  · rw [Js.lookup_mapSet_of_ne _ _ hother] at hfound
    exact h other found hfound

theorem cachedReferenceScope_sound {scope : Option Scope} (hcache : CacheSound env db cache)
    (h : cachedReferenceScope env db reference none cache = .ok (scope, cache')) :
    referenceScope env db reference none = .ok scope ∧ CacheSound env db cache' := by
  unfold cachedReferenceScope at h
  cases hid : truthy reference.storageId with
  | none =>
      rw [hid] at h
      cases h
      exact ⟨referenceScope_of_unnamed hid, hcache⟩
  | some id =>
      rw [hid] at h
      rw [referenceScope_of_named hid]
      cases hcached : cache.lookup id with
      | some cached =>
          simp only [hcached, bind_eq_ok, pure_eq_ok] at h
          obtain ⟨found, hscope, hpair⟩ := h
          cases hpair
          exact ⟨bind_eq_ok.mpr ⟨cached, hcache id cached hcached, hscope⟩, hcache⟩
      | none =>
          simp only [hcached, bind_eq_ok, pure_eq_ok] at h
          obtain ⟨resolution, hlookup, found, hscope, hpair⟩ := h
          cases hpair
          exact ⟨bind_eq_ok.mpr ⟨resolution, hlookup, hscope⟩, hcache.set hlookup⟩

/-! ## One check -/

theorem checkReference_sound (h : checkReference env db selected cache reference = .ok cache')
    (hcache : CacheSound env db cache) :
    CacheSound env db cache' ∧ ClearOf env db none [selected] reference := by
  unfold checkReference at h
  simp only [bind_eq_ok, refuseIf_eq_ok, pure_eq_ok] at h
  obtain ⟨⟨scope, next⟩, hscope, overlap, hoverlap, _, rfl, rfl⟩ := h
  obtain ⟨hresolved, hnext⟩ := cachedReferenceScope_sound hcache hscope
  refine ⟨hnext, scope, hresolved, fun owned howned location hlocation => ?_⟩
  cases howned
  rw [List.mem_singleton.mp hlocation]
  exact hoverlap

theorem checkNamed_sound (h : checkNamed env db selected cache reference = .ok cache')
    (hcache : CacheSound env db cache) :
    CacheSound env db cache' ∧ ClearOf env db none [selected] reference := by
  unfold checkNamed at h
  rw [bind_eq_ok] at h
  obtain ⟨_, -, hcheck⟩ := h
  exact checkReference_sound hcheck hcache

theorem checkReferences_sound {references : List Reference}
    (h : references.foldlM (checkReference env db selected) cache = .ok cache')
    (hcache : CacheSound env db cache) :
    CacheSound env db cache' ∧ ∀ reference ∈ references, ClearOf env db none [selected] reference :=
  foldlM_each (fun _ _ _ _ => checkReference_sound) h hcache

theorem checkPlan_sound {plan : Plan} (h : checkPlan env db selected cache plan = .ok cache')
    (hcache : CacheSound env db cache) :
    CacheSound env db cache' ∧ ∀ reference ∈ plan.references,
      ClearOf env db none [selected] reference := by
  unfold checkPlan at h
  rw [bind_eq_ok] at h
  obtain ⟨next, hprimary, hreplicas⟩ := h
  obtain ⟨hnext, hfirst⟩ := checkReference_sound hprimary hcache
  obtain ⟨hlast, hrest⟩ := foldlM_each (fun _ _ _ _ => checkNamed_sound) hreplicas hnext
  exact ⟨hlast, List.forall_mem_cons.mpr ⟨hfirst, hrest⟩⟩

theorem checkMirrors_sound {backup : Backup}
    (h : checkMirrors env db selected cache backup = .ok cache')
    (hcache : CacheSound env db cache) : CacheSound env db cache' ∧
      ∀ reference ∈ backup.mirrors.references, ClearOf env db none [selected] reference := by
  unfold checkMirrors at h
  rw [bind_eq_ok] at h
  obtain ⟨mirrors, hmirrors, hchecks⟩ := h
  rw [Mirrors.references_of_decode hmirrors]
  exact foldlM_each (fun _ _ _ _ => checkNamed_sound) hchecks hcache

theorem checkDestination_sound {row : Destination}
    (h : checkDestination env db selected cache row = .ok cache')
    (hcache : CacheSound env db cache) : CacheSound env db cache' ∧
      (Apart env [selected] row.scope ∧ ClearOf env db none [selected] row.reference) := by
  unfold checkDestination at h
  simp only [bind_eq_ok, refuseIf_eq_ok] at h
  obtain ⟨overlap, hoverlap, _, rfl, hcheck⟩ := h
  obtain ⟨hnext, hclear⟩ := checkReference_sound hcheck hcache
  refine ⟨hnext, fun location hlocation => ?_, hclear⟩
  rw [List.mem_singleton.mp hlocation]
  exact hoverlap

theorem checkJob_sound {row : Job} (h : checkJob env db selected cache row = .ok cache')
    (hcache : CacheSound env db cache) : CacheSound env db cache' ∧
      (ClearOf env db none [selected] row.destination ∧
        ClearOf env db none [selected] row.source) := by
  unfold checkJob at h
  rw [bind_eq_ok] at h
  obtain ⟨next, hdestination, hsource⟩ := h
  obtain ⟨hnext, hfirst⟩ := checkReference_sound hdestination hcache
  obtain ⟨hlast, hsecond⟩ := checkReference_sound hsource hnext
  exact ⟨hlast, hfirst, hsecond⟩

theorem checkSettings_sound {row : SettingsRow}
    (h : checkSettings env db selected cache row = .ok cache') (hcache : CacheSound env db cache) :
    CacheSound env db cache' ∧ ∀ reference ∈ row.references,
      ClearOf env db none [selected] reference := by
  unfold checkSettings at h
  unfold SettingsRow.references
  cases hself : row.selfBackup with
  | none =>
      rw [hself] at h
      cases h
      exact ⟨hcache, by simp⟩
  | some selfBackup =>
      rw [hself] at h
      dsimp only at h
      have hone : ∀ reference ∈ (some selfBackup.reference).toList,
          reference = selfBackup.reference := by simp
      cases hid : truthy selfBackup.storageId with
      | none =>
          rw [if_pos (by simp [hid])] at h
          cases h
          exact ⟨hcache, fun reference hmem => hone reference hmem ▸ clearOf_of_unnamed hid⟩
      | some id =>
          rw [if_neg (by simp [hid])] at h
          obtain ⟨hnext, hclear⟩ := checkReference_sound h hcache
          exact ⟨hnext, fun reference hmem => hone reference hmem ▸ hclear⟩

/-! ## All checks -/

theorem checkDatabase_held (h : checkDatabase env db selected = .ok cache') :
    Held db (ClearOf env db none [selected]) (Apart env [selected]) := by
  unfold checkDatabase at h
  simp only [bind_eq_ok] at h
  obtain ⟨_, hplans, _, hbackups, _, hremote, _, hretained, _, hmirrors, _, hdestinations, _,
      hjobs, hsettings⟩ := h
  obtain ⟨hcache, hplans⟩ := foldlM_each (fun _ _ _ _ => checkPlan_sound) hplans cacheSound_nil
  obtain ⟨hcache, hbackups⟩ := checkReferences_sound hbackups hcache
  obtain ⟨hcache, hremote⟩ := checkReferences_sound hremote hcache
  obtain ⟨hcache, hretained⟩ := checkReferences_sound hretained hcache
  obtain ⟨hcache, hmirrors⟩ := foldlM_each (fun _ _ _ _ => checkMirrors_sound) hmirrors hcache
  obtain ⟨hcache, hdestinations⟩ :=
    foldlM_each (fun _ _ _ _ => checkDestination_sound) hdestinations hcache
  obtain ⟨hcache, hjobs⟩ := foldlM_each (fun _ _ _ _ => checkJob_sound) hjobs hcache
  obtain ⟨-, hsettings⟩ := foldlM_each (fun _ _ _ _ => checkSettings_sound) hsettings hcache
  exact {
    plans := hplans
    backups := fun row hrow => List.forall_mem_cons.mpr
      ⟨hbackups _ (List.mem_map_of_mem hrow), hmirrors row hrow⟩
    remote := fun row hrow => hremote _ (List.mem_map_of_mem hrow)
    retained := fun row hrow => hretained _ (List.mem_map_of_mem hrow)
    destinations := fun row hrow => (hdestinations row hrow).2
    sources := fun row hrow => (hjobs row hrow).2
    targets := fun row hrow => (hjobs row hrow).1
    settings := hsettings
    bound := fun row hrow => (hdestinations row hrow).1 }

/-- A granted reservation is the old ones and one location that every row is clear of. -/
theorem reserveExportNamespace_cases {config : ExportConfig} {next : Database}
    (h : reserveExportNamespace env db config = .ok next) :
    ∃ selected, next = db.reserve selected ∧
      Held db (ClearOf env db none [selected]) (Apart env [selected]) := by
  unfold reserveExportNamespace at h
  rw [mapError_eq_ok] at h
  unfold reserveTransaction at h
  simp only [bind_eq_ok, refuseIf_eq_ok, pure_eq_ok] at h
  obtain ⟨selected, -, -, -, -, -, -, -, cache, hcheck, -, -, -, -, -, -, hnext⟩ := h
  exact ⟨selected, hnext.symm, checkDatabase_held hcheck⟩

end Pluton.Namespaces
