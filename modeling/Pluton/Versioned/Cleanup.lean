-- SUMMARY: What the versioned cleanup may delete and abort, and what it has seen when it returns.
import Pluton.Log
import Pluton.Versioned.Storage
import Pluton.WriteOnce.Cleanup

/-!
# What the cleanup deletes

`Allowed` says what must have been answered before a deletion or an abort is sent. Each
part of the cleanup is shown to send allowed requests alone, and of few kinds, so that what
was seen of one key still stands when the other is done.
-/
namespace Pluton.Versioned

open EStateM Log
open WriteOnce (Failure ListedUpload)

variable {env : Env} {job : ExportJob} {ok : Exchange → Prop} {key version : String}
  {log log' : List Exchange} {w w' w'' : World} {R : World → Prop} {seen : Seen}

/-! ## What a request needs -/

/-- A listing of the key's versions named this one. -/
def Exchange.ListsVersion (key version : String) (x : Exchange) : Prop :=
  ∃ marker versionMarker output, x = ⟨.listObjectVersions key marker versionMarker, .ok output⟩ ∧
    ⟨some key, some version⟩ ∈ output.Versions

/-- A listing of the key's versions named this delete marker. -/
def Exchange.ListsMarker (key version : String) (x : Exchange) : Prop :=
  ∃ marker versionMarker output, x = ⟨.listObjectVersions key marker versionMarker, .ok output⟩ ∧
    ⟨some key, some version⟩ ∈ output.DeleteMarkers

/-- The version was listed, and its HEAD showed it to be the job's. -/
structure Owned (env : Env) (job : ExportJob) (log : List Exchange) (key version : String) :
    Prop where
  listed : ∃ x ∈ log, x.ListsVersion key version
  head : ∃ output, ⟨.headObject key (some version), .ok output⟩ ∈ log ∧ owns env job output = true ∧
    (env.allowSharedNamespace = true → matchesVersionProof env job key version output = true)

/-- The delete marker was listed, in a namespace of the job's own, and it
hides a version of the job. -/
structure Removable (env : Env) (job : ExportJob) (log : List Exchange) (key version : String) :
    Prop where
  exclusive : env.allowSharedNamespace = false
  listed : ∃ x ∈ log, x.ListsMarker key version
  hides : (∃ other, Owned env job log key other) ∨ (recordedVersion job key).isSome

/-- What must have been answered before a request is sent. -/
def Allowed (env : Env) (job : ExportJob) (log : List Exchange) (x : Exchange) : Prop :=
  match x.request with
  | .deleteObject key version =>
    key ∈ keys job ∧ (Owned env job log key version ∨ Removable env job log key version)
  | .abortMultipartUpload key id =>
    key ∈ keys job ∧ (env.allowSharedNamespace = true → ownsUpload job key id = true)
  | _ => True

theorem Owned.mono (h : Owned env job log key version) (hsub : log ⊆ log') :
    Owned env job log' key version := by
  obtain ⟨x, hx, hlists⟩ := h.listed
  obtain ⟨output, hhead, howns⟩ := h.head
  exact ⟨⟨x, hsub hx, hlists⟩, output, hsub hhead, howns⟩

/-! ## Parts of a run -/

/-- From `w` to `w'` allowed requests were sent alone, all of a kind. -/
structure Went (env : Env) (job : ExportJob) (ok : Exchange → Prop) (w w' : World) : Prop where
  justified : Justified (Allowed env job) w'.sent
  grown : ∃ rest, w'.sent = w.sent ++ rest ∧ ∀ x ∈ rest, ok x
  delegated : w'.delegated = w.delegated

theorem Went.refl (h : Justified (Allowed env job) w.sent) : Went env job ok w w :=
  ⟨h, ⟨[], (List.append_nil _).symm, fun _ hx => absurd hx List.not_mem_nil⟩, rfl⟩

theorem Went.trans (h : Went env job ok w w') (h' : Went env job ok w' w'') :
    Went env job ok w w'' := by
  obtain ⟨rest, hsent, hrest⟩ := h.grown
  obtain ⟨rest', hsent', hrest'⟩ := h'.grown
  refine ⟨h'.justified, ⟨rest ++ rest', ?_, fun x hx => ?_⟩, h'.delegated.trans h.delegated⟩
  · rw [hsent', hsent, List.append_assoc]
  · exact (List.mem_append.mp hx).elim (hrest x) (hrest' x)

theorem Went.weaken {ok' : Exchange → Prop} (h : Went env job ok w w') (hok : ∀ x, ok x → ok' x) :
    Went env job ok' w w' := by
  obtain ⟨rest, hsent, hrest⟩ := h.grown
  exact ⟨h.justified, ⟨rest, hsent, fun x hx => hok x (hrest x hx)⟩, h.delegated⟩

theorem Went.subset (h : Went env job ok w w') : w.sent ⊆ w'.sent := by
  obtain ⟨rest, hsent, -⟩ := h.grown
  rw [hsent]
  exact List.subset_append_left _ _

theorem Went.then {α : Type} {x : Prog α} {Q : α → World → Prop} (h : Went env job ok w w')
    (hx : wp x (fun a last => Went env job ok w' last ∧ Q a last)
      (fun _ => Went env job ok w') w') :
    wp x (fun a last => Went env job ok w last ∧ Q a last) (fun _ => Went env job ok w) w' :=
  hx.mono (fun _ _ hq => ⟨h.trans hq.1, hq.2⟩) fun _ _ hwent => h.trans hwent

theorem Went.thenUnit {α : Type} {x : Prog α} (h : Went env job ok w w')
    (hx : wp x (fun _ => Went env job ok w') (fun _ => Went env job ok w') w') :
    wp x (fun _ => Went env job ok w) (fun _ => Went env job ok w) w' :=
  hx.mono (fun _ _ => h.trans) fun _ _ => h.trans

/-! ## Requests -/

theorem wp_send {request : Request} (h : Justified (Allowed env job) w.sent)
    (hallowed : ∀ response, Allowed env job w.sent ⟨request, response⟩)
    (hok : ∀ response, ok ⟨request, response⟩) :
    wp (send env request)
      (fun output w' => Went env job ok w w' ∧ w'.sent = w.sent ++ [⟨request, .ok output⟩])
      (fun _ => Went env job ok w) w := by
  have hwent : ∀ response,
      Went env job ok w { w with sent := w.sent ++ [⟨request, response⟩] } := fun response =>
    ⟨h.concat (hallowed response), ⟨_, rfl, by simpa using hok response⟩, rfl⟩
  unfold wp send
  dsimp only
  cases env.answers w.sent.length with
  | ok output => exact ⟨hwent _, rfl⟩
  | error error => exact hwent _

theorem wp_ask {request : String → Request} (h : Justified (Allowed env job) w.sent)
    (hallowed : ∀ response, Allowed env job w.sent ⟨request key, response⟩)
    (hok : ∀ response, ok ⟨request key, response⟩) :
    wp (ask env job key request)
      (fun output w' => Went env job ok w w' ∧ w'.sent = w.sent ++ [⟨request key, .ok output⟩])
      (fun _ => Went env job ok w) w := by
  unfold ask
  rw [wp_bind, wp_ofExcept]
  refine ⟨fun key' hkey => ?_, fun _ _ => .refl h⟩
  obtain rfl := WriteOnce.scope_eq_ok hkey
  exact wp_send h hallowed hok

theorem wp_gone {x : Prog Output} (hx : wp x (fun _ => R) (fun _ => R) w) :
    wp (gone x) (fun _ => R) (fun _ => R) w := by
  unfold gone
  rw [wp_bind, wp_observe]
  refine hx.mono (fun _ _ h => h) fun error w' h => ?_
  change wp (if missing error = true then _ else _) _ _ w'
  rw [wp_ite]
  exact ⟨fun _ => h, fun _ => h⟩

theorem wp_unlessMissing {x : Prog Output} (hx : wp x (fun _ => R) (fun _ => R) w) :
    wp (unlessMissing x) (fun _ => R) (fun _ => R) w := by
  unfold unlessMissing
  rw [wp_bind, wp_observe]
  refine hx.mono (fun _ _ h => h) fun error w' h => ?_
  change wp (if missing error = true then _ else _) _ _ w'
  rw [wp_ite]
  exact ⟨fun _ => h, fun _ => h⟩

/-- A request that is always allowed, of which nothing is learned. -/
theorem wp_ask_unit {request : String → Request} (h : Justified (Allowed env job) w.sent)
    (hallowed : ∀ response, Allowed env job w.sent ⟨request key, response⟩)
    (hok : ∀ response, ok ⟨request key, response⟩) :
    wp (ask env job key request) (fun _ => Went env job ok w) (fun _ => Went env job ok w) w :=
  (wp_ask h hallowed hok).mono (fun _ _ hq => hq.1) fun _ _ hwent => hwent

/-! ## Uploads -/

theorem wp_abort {id : String} (h : Justified (Allowed env job) w.sent) (hkey : key ∈ keys job)
    (howns : env.allowSharedNamespace = true → ownsUpload job key id = true) :
    wp (abort env job key id) (fun _ => Went env job (fun _ => True) w)
      (fun _ => Went env job (fun _ => True) w) w := by
  unfold abort
  rw [wp_bind, wp_get, wp_ite]
  refine ⟨fun _ => .refl h, fun _ => ?_⟩
  have habort : wp (ask env job key (.abortMultipartUpload · id)) (fun _ =>
      Went env job (fun _ => True) w)
      (fun _ => Went env job (fun _ => True) w) w :=
    wp_ask_unit h (fun _ => ⟨hkey, howns⟩) fun _ => trivial
  refine (wp_unlessMissing habort).bind fun _ w' hwent => ?_
  rw [wp_bind, wp_modify]
  have hnoted : Went env job (fun _ => True) w { w' with aborted := w'.aborted ++ [id] } :=
    ⟨hwent.justified, hwent.grown, hwent.delegated⟩
  exact wp_gone (hnoted.thenUnit (wp_ask_unit hnoted.justified (fun _ => trivial) fun _ => trivial))

theorem wp_abortListed {upload : ListedUpload} (h : Justified (Allowed env job) w.sent) :
    wp (abortListed env job upload) (fun _ => Went env job (fun _ => True) w)
      (fun _ => Went env job (fun _ => True) w) w := by
  unfold abortListed
  dsimp only
  split
  · exact .refl h
  · next id hid =>
      rw [wp_ite]
      refine ⟨fun hkey => ?_, fun _ => .refl h⟩
      rw [wp_bind, wp_refuseIf]
      refine ⟨fun _ => .refl h, fun hshared => ?_⟩
      refine wp_abort h (List.contains_iff_mem.mp hkey) fun hallow => ?_
      rw [hallow, Bool.true_and] at hshared
      simpa using hshared

theorem wp_abortPages (pages : Nat) (keyMarker uploadIdMarker : Option String)
    (h : Justified (Allowed env job) w.sent) :
    wp (abortPages env job pages keyMarker uploadIdMarker) (fun _ => Went env job (fun _ => True) w)
      (fun _ => Went env job (fun _ => True) w) w := by
  induction pages generalizing w keyMarker uploadIdMarker with
  | zero => exact .refl h
  | succ pages ih =>
      unfold abortPages
      refine wp.bind (wp_send h (fun _ => trivial) fun _ => trivial) fun uploads w₁ h₁ => ?_
      refine wp.bind (wp_forM (fun upload _ s hs => hs.thenUnit (wp_abortListed hs.justified)) h₁.1)
        fun _ w₂ h₂ => ?_
      rw [wp_ite]
      refine ⟨fun _ => h₂, fun _ => ?_⟩
      rw [wp_ite]
      exact ⟨fun _ => h₂, fun _ => h₂.thenUnit (ih _ _ h₂.justified)⟩

/-- A listing that is not reported truncated names no upload of the job's keys. -/
def Exchange.ListsNoUpload (job : ExportJob) (x : Exchange) : Prop :=
  ∃ output, x = ⟨.listMultipartUploads job.key none none, .ok output⟩ ∧
    output.IsTruncated ≠ some true ∧
    ∀ upload ∈ output.Uploads.getD [], ∀ key ∈ keys job, upload.Key ≠ some key

def Exchange.ListsUploads (x : Exchange) : Prop :=
  ∃ under keyMarker uploadIdMarker, x.request = .listMultipartUploads under keyMarker uploadIdMarker

theorem given_eq_some {text : Option String} {value : String} (h : given text = some value) :
    text = some value :=
  (Option.filter_eq_some_iff.mp h).1

theorem wp_cleanupUploads (h : Justified (Allowed env job) w.sent) :
    wp (cleanupUploads env job)
      (fun _ w' => Went env job (fun _ => True) w w' ∧
        Since (Exchange.ListsNoUpload job) Exchange.ListsUploads w'.sent)
      (fun _ => Went env job (fun _ => True) w) w := by
  unfold cleanupUploads
  refine (wp_abortPages 4 none none h).bind fun _ w₁ h₁ => ?_
  refine wp.bind (wp_forM (I := Went env job (fun _ => True) w) (fun id hid s hs => ?_) h₁)
    fun _ w₂ h₂ => ?_
  · refine hs.thenUnit (wp_abort hs.justified (by simp [keys]) fun _ => ?_)
    rw [Option.mem_toList] at hid
    simp [ownsUpload, given_eq_some hid]
  refine wp.bind (wp_forM (I := Went env job (fun _ => True) w) (fun id hid s hs => ?_) h₂)
    fun _ w₃ h₃ => ?_
  · refine hs.thenUnit (wp_abort hs.justified (by simp [keys]) fun _ => ?_)
    rw [Option.mem_toList] at hid
    simp [ownsUpload, given_eq_some hid]
  refine wp.bind (h₃.then (wp_send h₃.justified (fun _ => trivial) fun _ => trivial))
    fun pending w₄ h₄ => ?_
  rw [wp_refuseIf]
  refine ⟨fun _ => h₄.1, fun hnone => ⟨h₄.1, ?_⟩⟩
  rw [Bool.or_eq_false_iff] at hnone
  rw [h₄.2]
  refine since_concat ⟨pending, rfl, by simpa using hnone.1, fun upload hupload key hkey heq => ?_⟩
  have hlisted := List.any_eq_false.mp hnone.2 upload hupload
  rw [heq] at hlisted
  exact hlisted (List.contains_iff_mem.mpr hkey)

/-! ## Versions -/

/-- While the versions of a key are settled no uploads are listed, and nothing of
the other key is deleted. -/
def Exchange.Concerns (key : String) (x : Exchange) : Prop :=
  match x.request with
  | .deleteObject key' _ => key' = key
  | .listMultipartUploads _ _ _ => False
  | _ => True

/-- What was seen of the key is in the log. -/
structure Shown (env : Env) (job : ExportJob) (key : String) (seen : Seen) (log : List Exchange) :
    Prop where
  owned : seen.owned = true → ∃ other, Owned env job log key other
  markers : ∀ version ∈ seen.markers, env.allowSharedNamespace = false ∧ ∃ x ∈ log,
    x.ListsMarker key version

theorem Shown.mono (h : Shown env job key seen log) (hsub : log ⊆ log') :
    Shown env job key seen log' := by
  refine ⟨fun howned => ?_, fun version hversion => ?_⟩
  · obtain ⟨other, hother⟩ := h.owned howned
    exact ⟨other, hother.mono hsub⟩
  · obtain ⟨hshared, x, hx, hlists⟩ := h.markers version hversion
    exact ⟨hshared, x, hsub hx, hlists⟩

/-- The part of the run in which the versions of the key are settled. -/
abbrev Settling (env : Env) (job : ExportJob) (key : String) : World → World → Prop :=
  Went env job (Exchange.Concerns key)

theorem wp_removeVersion (h : Justified (Allowed env job) w.sent) (hkey : key ∈ keys job)
    (howned : Owned env job w.sent key version) :
    wp (removeVersion env job key version) (fun _ => Settling env job key w)
      (fun _ => Settling env job key w) w := by
  unfold removeVersion
  refine wp.bind (wp_ask h (fun _ => ⟨hkey, .inl howned⟩) fun _ => rfl) fun _ w₁ h₁ => ?_
  have hask : wp (ask env job key (.headObject · (some version))) (fun _ => Settling env job key w₁)
      (fun _ => Settling env job key w₁) w₁ :=
    wp_ask_unit h₁.1.justified (fun _ => trivial) fun _ => trivial
  exact wp_gone (h₁.1.thenUnit hask)

theorem wp_deleteVersion {item : ListedVersion} (h : Justified (Allowed env job) w.sent)
    (hkey : key ∈ keys job)
    (hlisted : ∀ version, item = ⟨some key, some version⟩ →
      ∃ x ∈ w.sent, x.ListsVersion key version)
    (hshown : Shown env job key seen w.sent) :
    wp (deleteVersion env job key seen item)
      (fun seen' w' => Settling env job key w w' ∧ Shown env job key seen' w'.sent)
      (fun _ => Settling env job key w) w := by
  have hsame : Settling env job key w w := .refl h
  unfold deleteVersion
  split
  · exact ⟨hsame, hshown⟩
  · next version hversion =>
      rw [wp_ite]
      refine ⟨fun _ => ⟨hsame, hshown⟩, fun hitem => ?_⟩
      have heq : item = ⟨some key, some version⟩ := by
        rw [← given_eq_some hversion, ← show item.Key = some key by simpa using hitem]
      obtain ⟨x, hx, hlists⟩ := hlisted version heq
      refine wp.bind (wp_ask h (fun _ => trivial) fun _ => trivial) fun head w₁ h₁ => ?_
      obtain ⟨h₁, hsent⟩ := h₁
      rw [wp_ite]
      refine ⟨fun _ => ⟨h₁, (hshown.mono h₁.subset).owned, (hshown.mono h₁.subset).markers⟩,
        fun howns => ?_⟩
      -- the HEAD showed the version to be the job's
      have howned : Owned env job w₁.sent key version := by
        simp only [Bool.or_eq_true, Bool.not_eq_true', Bool.and_eq_true, not_or, not_and,
          Bool.not_eq_false] at howns
        refine ⟨⟨x, h₁.subset hx, hlists⟩, head, ?_, howns.1, howns.2⟩
        rw [hsent]
        exact List.mem_append_right _ (List.mem_singleton.mpr rfl)
      refine wp.bind ((wp_removeVersion h₁.justified hkey howned).mono (fun _ _ h => h) fun _ _ =>
        h₁.trans)
        fun _ w₂ h₂ => ?_
      have hlater := hshown.mono (h₁.trans h₂).subset
      exact ⟨h₁.trans h₂, fun _ => ⟨version, howned.mono h₂.subset⟩, hlater.markers⟩

theorem wp_noteMarker {item : ListedVersion} (h : Justified (Allowed env job) w.sent)
    (hlisted : ∀ version, item = ⟨some key, some version⟩ → ∃ x ∈ w.sent, x.ListsMarker key version)
    (hshown : Shown env job key seen w.sent) :
    wp (noteMarker env key seen item)
      (fun seen' w' => Settling env job key w w' ∧ Shown env job key seen' w'.sent)
      (fun _ => Settling env job key w) w := by
  have hsame : Settling env job key w w := .refl h
  unfold noteMarker
  split
  · exact ⟨hsame, hshown⟩
  · next version hversion =>
      rw [wp_ite]
      refine ⟨fun _ => ⟨hsame, hshown⟩, fun hitem => ?_⟩
      have heq : item = ⟨some key, some version⟩ := by
        rw [← given_eq_some hversion, ← show item.Key = some key by simpa using hitem]
      rw [wp_bind, wp_refuseIf]
      refine ⟨fun _ => hsame, fun hshared => ⟨hsame, hshown.owned, fun other hother => ?_⟩⟩
      rcases List.mem_append.mp hother with hother | hother
      · exact hshown.markers other hother
      · obtain rfl := List.mem_singleton.mp hother
        exact ⟨hshared, hlisted _ heq⟩

theorem wp_deletePages (hkey : key ∈ keys job) (pages : Nat) (marker versionMarker : Option String)
    (h : Justified (Allowed env job) w.sent) (hshown : Shown env job key seen w.sent) :
    wp (deletePages env job key pages marker versionMarker seen)
      (fun seen' w' => Settling env job key w w' ∧ Shown env job key seen' w'.sent)
      (fun _ => Settling env job key w) w := by
  induction pages generalizing w marker versionMarker seen with
  | zero => exact ⟨.refl h, hshown⟩
  | succ pages ih =>
      unfold deletePages
      refine wp.bind (wp_send h (fun _ => trivial) fun _ => trivial) fun versions w₁ h₁ => ?_
      obtain ⟨h₁, hsent⟩ := h₁
      have hpage : ∀ s, Settling env job key w₁ s →
          ⟨.listObjectVersions key marker versionMarker, .ok versions⟩ ∈ s.sent := by
        intro s hs
        refine hs.subset ?_
        rw [hsent]
        exact List.mem_append_right _ (List.mem_singleton.mpr rfl)
      -- the items of the page, one after the other
      have hversions : wp (versions.Versions.foldlM (deleteVersion env job key) seen)
          (fun seen' s => Settling env job key w₁ s ∧ Shown env job key seen' s.sent)
          (fun _ => Settling env job key w₁) w₁ := by
        refine wp_foldlM (fun item hitem seen' s hs =>
          hs.1.then (wp_deleteVersion hs.1.justified hkey ?_ hs.2))
          ⟨.refl h₁.justified, hshown.mono h₁.subset⟩
        rintro version rfl
        exact ⟨_, hpage s hs.1, marker, versionMarker, versions, rfl, hitem⟩
      refine wp.bind (hversions.mono (fun _ _ hq => hq) fun _ _ => h₁.trans) fun seen₂ w₂ h₂ => ?_
      have hmarkers : wp (versions.DeleteMarkers.foldlM (noteMarker env key) seen₂)
          (fun seen' s => Settling env job key w₁ s ∧ Shown env job key seen' s.sent)
          (fun _ => Settling env job key w₁) w₂ := by
        refine wp_foldlM (fun item hitem seen' s hs =>
          hs.1.then (wp_noteMarker hs.1.justified ?_ hs.2)) h₂
        rintro version rfl
        exact ⟨_, hpage s hs.1, marker, versionMarker, versions, rfl, hitem⟩
      refine wp.bind (hmarkers.mono (fun _ _ hq => hq) fun _ _ => h₁.trans) fun seen₃ w₃ h₃ => ?_
      have hdone := h₁.trans h₃.1
      rw [wp_ite]
      refine ⟨fun _ => ⟨hdone, h₃.2⟩, fun _ => ?_⟩
      rw [wp_ite]
      exact ⟨fun _ => hdone, fun _ => hdone.then (ih _ _ h₃.1.justified h₃.2)⟩

/-! ## The end of a key -/

/-- A listing that is not reported truncated shows neither a version nor a marker of the key. -/
def Exchange.ListsNothing (key : String) (x : Exchange) : Prop :=
  ∃ output, x = ⟨.listObjectVersions key none none, .ok output⟩ ∧ output.IsTruncated ≠ some true ∧
    ∀ item ∈ output.Versions ++ output.DeleteMarkers, item.Key ≠ some key

def Exchange.Deletes (key : String) (x : Exchange) : Prop :=
  ∃ version, x.request = .deleteObject key version

theorem wp_cleanupKey (h : Justified (Allowed env job) w.sent) (hkey : key ∈ keys job) :
    wp (cleanupKey env job key)
      (fun _ w' => Settling env job key w w' ∧
        Since (Exchange.ListsNothing key) (Exchange.Deletes key) w'.sent)
      (fun _ => Settling env job key w) w := by
  unfold cleanupKey
  refine wp.bind (wp_deletePages hkey 4 none none h ⟨nofun, fun _ hv => absurd hv List.not_mem_nil⟩)
    fun seen w₁ h₁ => ?_
  obtain ⟨h₁, hshown⟩ := h₁
  rw [wp_bind, wp_refuseIf]
  refine ⟨fun _ => h₁, fun hallowed => ?_⟩
  have hremovable : ∀ s, Settling env job key w₁ s →
      ∀ version ∈ seen.markers, Removable env job s.sent key version := by
    intro s hs version hversion
    obtain ⟨hexclusive, x, hx, hlists⟩ := hshown.markers version hversion
    refine ⟨hexclusive, ⟨x, hs.subset hx, hlists⟩, ?_⟩
    have hsome : seen.markers.isEmpty = false :=
      List.isEmpty_eq_false_iff.mpr (List.ne_nil_of_mem hversion)
    rw [hsome, Bool.not_false, Bool.true_and, Bool.or_eq_false_iff,
      Bool.and_eq_false_iff] at hallowed
    rcases hallowed.2 with howned | hrecorded
    · obtain ⟨other, hother⟩ := hshown.owned (by simpa using howned)
      exact .inl ⟨other, hother.mono hs.subset⟩
    · exact .inr (by simpa [Option.isSome_iff_ne_none] using hrecorded)
  have hloop : wp (seen.markers.forM fun version => do let _ ← send env (.deleteObject key version))
      (fun _ => Settling env job key w₁) (fun _ => Settling env job key w₁) w₁ := by
    refine wp_forM (fun version hversion s hs => ?_) (.refl h₁.justified)
    refine wp.bind (hs.then (wp_send hs.justified ?_ fun _ => rfl)) fun _ _ hnext => hnext.1
    exact fun _ => ⟨hkey, .inr (hremovable s hs version hversion)⟩
  refine wp.bind (h₁.thenUnit hloop) fun _ w₂ h₂ => ?_
  refine wp.bind (h₂.then (wp_send h₂.justified (fun _ => trivial) fun _ => trivial))
    fun remaining w₃ h₃ => ?_
  obtain ⟨h₃, hsent⟩ := h₃
  rw [wp_bind, wp_refuseIf]
  refine ⟨fun _ => h₃, fun hnone => ?_⟩
  rw [Bool.or_eq_false_iff] at hnone
  have hnothing : Since (Exchange.ListsNothing key) (Exchange.Deletes key) w₃.sent := by
    rw [hsent]
    refine since_concat ⟨remaining, rfl, by simpa using hnone.1, fun item hitem heq => ?_⟩
    have hlisted := List.any_eq_false.mp hnone.2 item hitem
    simp [heq] at hlisted
  -- the heads delete nothing, so what was listed still stands
  have hheads : wp ((none :: (recordedVersion job key).toList.map some).forM fun version =>
        gone (ask env job key (.headObject · version)))
      (fun _ => Went env job (fun x => ¬x.Deletes key ∧ x.Concerns key) w₃)
      (fun _ => Went env job (fun x => ¬x.Deletes key ∧ x.Concerns key) w₃) w₃ := by
    refine wp_forM (fun version _ s hs => wp_gone (hs.thenUnit ?_)) (.refl h₃.justified)
    exact wp_ask_unit hs.justified (fun _ => trivial) fun _ => ⟨nofun, trivial⟩
  refine hheads.mono (fun _ w₄ h₄ => ?_) fun _ w₄ h₄ => h₃.trans (h₄.weaken fun _ hx => hx.2)
  refine ⟨h₃.trans (h₄.weaken fun _ hx => hx.2), ?_⟩
  obtain ⟨rest, hrest, hkind⟩ := h₄.grown
  rw [hrest]
  exact hnothing.append fun y hy => (hkind y hy).1

/-! ## The whole cleanup -/

/-- The write-once storage aborts what a record lists, and its cleanup changes no such list. -/
theorem delegated_aborts (env' : WriteOnce.Env) (recorded : WriteOnce.ExportJob)
    {x : WriteOnce.Exchange} {id : String}
    (hx : x ∈ ((WriteOnce.cleanup env').after (.start recorded)).sent)
    (hrequest : x.request = .abortMultipartUpload key id) : ⟨key, id⟩ ∈ recorded.ownedUploads := by
  have hkept : WriteOnce.Kept env' recorded ((WriteOnce.cleanup env').after (.start recorded)) :=
    (WriteOnce.cleanup_runs env' recorded).kept (.reset recorded)
  obtain ⟨before, after, hlog⟩ := List.append_of_mem hx
  have hallowed := hkept.sound before x after hlog
  rw [hrequest] at hallowed
  have hsame : x.record.fixed.ownedUploads = recorded.fixed.ownedUploads :=
    congrArg WriteOnce.ExportJob.ownedUploads (hkept.sent x hx)
  have hown : ⟨key, id⟩ ∈ x.record.fixed.ownedUploads := hallowed
  rw [hsame] at hown
  exact hown

/-- Of the uploads of a capability probe those are aborted that the job has on record. -/
def ProbeAborts (job : ExportJob) (w : World) : Prop :=
  ∀ x ∈ w.delegated, ∀ key id, x.request = .abortMultipartUpload key id →
    ∃ probe, job.capabilityProbe = some probe ∧ ⟨key, id⟩ ∈ probe.ownedUploads

theorem wp_delegate {assigns : Bool} {recorded : WriteOnce.ExportJob}
    (hR : ∀ w', w'.sent = w.sent → (∀ x ∈ w'.delegated, x ∈ w.delegated ∨
      ∀ key id, x.request = .abortMultipartUpload key id →
        ⟨key, id⟩ ∈ recorded.ownedUploads) → R w') :
    wp (delegate env assigns recorded) (fun _ => R) (fun _ => R) w := by
  rw [wp_iff_after]
  have hafter : ((delegate env assigns recorded).after w).sent = w.sent ∧
      ∃ env', ((delegate env assigns recorded).after w).delegated =
        w.delegated ++ ((WriteOnce.cleanup env').after (.start recorded)).sent := by
    unfold after delegate
    dsimp only
    split
    · next heq => exact ⟨rfl, _, rfl⟩
    · next heq => exact ⟨rfl, _, rfl⟩
  obtain ⟨hsent, env', hdelegated⟩ := hafter
  refine hR _ hsent fun x hx => ?_
  rw [hdelegated] at hx
  exact (List.mem_append.mp hx).imp id fun hx key id hrequest =>
    delegated_aborts env' recorded hx hrequest

theorem wp_cleanupProbe (hnone : w.delegated = []) :
    wp (cleanupProbe env job) (fun _ w' => w'.sent = w.sent ∧ ProbeAborts job w')
      (fun _ w' => w'.sent = w.sent ∧ ProbeAborts job w') w := by
  have hstart : ProbeAborts job w := by
    intro x hx
    rw [hnone] at hx
    exact absurd hx List.not_mem_nil
  unfold cleanupProbe
  split
  · exact ⟨rfl, hstart⟩
  · next probe hprobe =>
      rw [wp_ite]
      refine ⟨fun _ => ⟨rfl, hstart⟩, fun _ => ?_⟩
      refine wp.bind (wp_delegate fun w' hsent hx =>
        ⟨hsent, fun x hmem key id hrequest => ?_⟩) fun _ w' h' => ?_
      · rcases hx x hmem with hold | hown
        · exact absurd (hnone ▸ hold) List.not_mem_nil
        · exact ⟨probe, hprobe, hown key id hrequest⟩
      · rw [wp_bind, wp_get, wp_bind, wp_modify, wp_refuseIf]
        exact ⟨fun _ => h', fun _ => h'⟩

theorem probe_ne (job : ExportJob) : job.key ++ ".probe" ≠ job.key := by
  intro h
  have hlength := congrArg String.length h
  rw [String.length_append] at hlength
  have hprobe : ".probe".length = 6 := rfl
  omega

/-- What the cleanup has seen when it returns: nothing of either key, after the last deletion
under it, and no upload in the last listing of uploads. -/
structure Emptied (job : ExportJob) (log : List Exchange) : Prop where
  versions : ∀ key ∈ keys job, Since (Exchange.ListsNothing key) (Exchange.Deletes key) log
  uploads : Since (Exchange.ListsNoUpload job) Exchange.ListsUploads log

theorem wp_cleanupKeys (h : Justified (Allowed env job) w.sent)
    (huploads : Since (Exchange.ListsNoUpload job) Exchange.ListsUploads w.sent) :
    wp ((keys job).forM (cleanupKey env job))
      (fun _ w' => Went env job (fun _ => True) w w' ∧ Emptied job w'.sent)
      (fun _ => Went env job (fun _ => True) w) w := by
  -- the uploads and the other key are left alone while a key is settled
  have hno : ∀ {key} {x : Exchange}, x.Concerns key → ¬x.ListsUploads := by
    rintro key x hx ⟨under, marker, idMarker, hrequest⟩
    rw [Exchange.Concerns, hrequest] at hx
    exact hx
  have hother : ∀ {key key'} {x : Exchange}, x.Concerns key → key' ≠ key → ¬x.Deletes key' := by
    rintro key key' x hx hne ⟨version, hrequest⟩
    rw [Exchange.Concerns, hrequest] at hx
    exact hne hx
  have hlist : (keys job).forM (cleanupKey env job) =
      cleanupKey env job (job.key ++ ".probe") >>= fun _ =>
        cleanupKey env job job.key >>= fun _ => pure ⟨⟩ := rfl
  rw [hlist]
  refine wp.bind ((wp_cleanupKey h (by simp [keys])).mono (fun _ _ hq => hq) fun _ _ hwent =>
    hwent.weaken fun _ _ => trivial)
    fun _ w₁ h₁ => ?_
  obtain ⟨h₁, hprobe⟩ := h₁
  have h₁' : Went env job (fun _ => True) w w₁ := h₁.weaken fun _ _ => trivial
  refine wp.bind ((wp_cleanupKey h₁.justified (by simp [keys])).mono (fun _ _ hq => hq)
    fun _ _ hwent => h₁'.trans (hwent.weaken fun _ _ => trivial)) fun _ w₂ h₂ => ?_
  obtain ⟨h₂, harchive⟩ := h₂
  obtain ⟨rest, hrest, hkind⟩ := h₁.grown
  obtain ⟨rest', hrest', hkind'⟩ := h₂.grown
  refine ⟨h₁'.trans (h₂.weaken fun _ _ => trivial), fun key hkey => ?_, ?_⟩
  · rcases List.mem_cons.mp hkey with rfl | hkey
    · rw [hrest']
      exact hprobe.append fun x hx => hother (hkind' x hx) (probe_ne job)
    · obtain rfl := List.mem_singleton.mp hkey
      exact harchive
  · rw [hrest', hrest]
    exact (huploads.append fun x hx => hno (hkind x hx)).append fun x hx => hno (hkind' x hx)

/-- For every job of a versioned bucket and whatever the provider answers: a version is deleted
after it was listed under a key of the job and its HEAD showed it to be the job's; a delete
marker only in a namespace of the job's own, where it hides a version of the job; in a shared
namespace only recorded uploads are aborted; and the cleanup returns only when it has seen
neither versions nor markers nor uploads of the two keys. -/
theorem cleanup_safe (env : Env) (job : ExportJob)
    (hversioned : WriteOnce.isWriteOnce job.integrityMode = false) :
    Justified (Allowed env job) ((cleanup env job).after {}).sent ∧
    ProbeAborts job ((cleanup env job).after {}) ∧
    ∀ last, cleanup env job {} = .ok () last → Emptied job last.sent := by
  have hrun : wp (cleanup env job) (fun _ w' =>
      (Justified (Allowed env job) w'.sent ∧ ProbeAborts job w') ∧ Emptied job w'.sent)
      (fun _ w' => Justified (Allowed env job) w'.sent ∧ ProbeAborts job w') {} := by
    unfold cleanup
    refine wp.bind ((wp_cleanupProbe rfl).mono (fun _ _ hq => hq) fun _ w' h =>
      ⟨h.1 ▸ justified_nil, h.2⟩) fun _ w₁ h₁ => ?_
    obtain ⟨hsent, hprobe⟩ := h₁
    have hnil : Justified (Allowed env job) w₁.sent := hsent ▸ justified_nil
    rw [hversioned, wp_ite]
    refine ⟨nofun, fun _ => ?_⟩
    rw [wp_bind, wp_ofExcept]
    refine ⟨fun _ _ => ?_, fun _ _ => ⟨hnil, hprobe⟩⟩
    have hkept : ∀ {w' : World}, Went env job (fun _ => True) w₁ w' →
        Justified (Allowed env job) w'.sent ∧ ProbeAborts job w' := by
      intro w' hwent
      refine ⟨hwent.justified, fun x hx => hprobe x ?_⟩
      rw [← hwent.delegated]
      exact hx
    refine wp.bind ((wp_cleanupUploads hnil).mono (fun _ _ hq => hq) fun _ _ =>
      hkept) fun _ w₂ h₂ => ?_
    exact (wp_cleanupKeys h₂.1.justified h₂.2).mono (fun _ _ hq => ⟨hkept (h₂.1.trans hq.1), hq.2⟩)
      fun _ _ hwent => hkept (h₂.1.trans hwent)
  have hafter := wp_iff_after.mp (hrun.mono (fun _ _ hq => hq.1) fun _ _ hq => hq)
  refine ⟨hafter.1, hafter.2, fun last hlast => ?_⟩
  unfold wp at hrun
  rw [hlast] at hrun
  exact hrun.2

/-- A job of a versioned bucket. -/
def sampleJob : ExportJob where
  id := "00000000-0000-0000-0000-000000000000"
  key := "exports/00000000-0000-0000-0000-000000000000.tar"
  binding := "\x7b\x7d"
  destination := "fingerprint"
  integrityMode := some .versioned
  ownershipNonce := none

def sampleMissing : Response := .error (.provider { httpStatusCode := some 404 })

/-- One upload, which is aborted; then the archive and a marker that hides it, which are deleted. -/
def sampleAnswers : List Response :=
  [.ok { Uploads := some [⟨some sampleJob.key, some "u"⟩] }, .ok {}, sampleMissing, .ok {},
    .ok {}, .ok {}, sampleMissing,
    .ok { Versions := [⟨some sampleJob.key, some "v"⟩],
          DeleteMarkers := [⟨some sampleJob.key, some "m"⟩] },
    .ok { Metadata := [("pluton-export-job", sampleJob.id), ("pluton-export-binding", "digest")] },
    .ok {}, sampleMissing, .ok {}, .ok {}, sampleMissing]

def sampleEnv : Env where
  bucket := "bucket"
  folder := "exports"
  fingerprint := "fingerprint"
  sha := fun _ => "digest"
  answer := fun _ => .error .journal
  commits := fun _ => true
  allowSharedNamespace := false
  answers := fun n => (sampleAnswers[n]?).getD sampleMissing

theorem cleanup_safe_sample : WriteOnce.isWriteOnce sampleJob.integrityMode = false ∧
    (cleanup sampleEnv sampleJob {}).value?.isSome = true ∧
    Emptied sampleJob ((cleanup sampleEnv sampleJob).after {}).sent := by
  have hreturns : (cleanup sampleEnv sampleJob {}).value?.isSome = true := by decide +kernel
  refine ⟨rfl, hreturns, ?_⟩
  unfold after
  cases heq : cleanup sampleEnv sampleJob {} with
  | ok _ last => exact (cleanup_safe sampleEnv sampleJob rfl).2.2 last heq
  | error _ _ =>
      rw [heq] at hreturns
      cases hreturns

end Pluton.Versioned
