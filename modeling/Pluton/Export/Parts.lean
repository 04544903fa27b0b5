-- SUMMARY: A completed multipart upload has exactly the archive, and completes once at most.
import Pluton.Export.Multipart

/-!
# What a completion publishes

The parts that were sent, and what the buffer holds, are the bytes that were written so far.
So when the stream has ended the parts are the stream. The completion comes after the record
says that it was attempted, and no later run gets past that.
-/
namespace Pluton.Export.Multipart

open EStateM

variable {env : Env} {archiveBytes : Nat} {before : List Request} {bodies : List Bytes}
  {streamed chunk : Bytes} {w w' : World} {n : Nat}

/-! ## Parts -/

/-- The ETag that a part was acknowledged with; none is the empty text. -/
def tagOf (env : Env) (partNumber : Nat) : String := ((env.part partNumber).bind id).getD ""

/-- The requests for parts with these bodies, numbered from one on. -/
def partRequests (bodies : List Bytes) : List Request :=
  bodies.mapIdx fun i body => .uploadPart (i + 1) body

/-- What the completion lists for these parts. -/
def completedParts (env : Env) (bodies : List Bytes) : List (Nat × String) :=
  bodies.mapIdx fun i _ => (i + 1, tagOf env (i + 1))

theorem partRequests_concat (bodies : List Bytes) (body : Bytes) :
    partRequests (bodies ++ [body]) =
      partRequests bodies ++ [.uploadPart (bodies.length + 1) body] :=
  List.mapIdx_concat

theorem completedParts_concat (env : Env) (bodies : List Bytes) (body : Bytes) :
    completedParts env (bodies ++ [body]) =
    completedParts env bodies ++ [(bodies.length + 1, tagOf env (bodies.length + 1))] :=
  List.mapIdx_concat

/-- The parts that were sent since `before`, each acknowledged. -/
structure Sent (env : Env) (before : List Request) (bodies : List Bytes) (w : World) : Prop where
  requests : w.requests = before ++ partRequests bodies
  parts : w.parts = completedParts env bodies
  acknowledged : ∀ i, i < bodies.length → tagOf env (i + 1) ≠ ""
  uploaded : w.uploaded = bodies.flatten.length
  nonempty : ∀ body ∈ bodies, body ≠ []

/-- Parts of full size were sent, and the rest of `streamed` is in the buffer. -/
structure Filled (env : Env) (before : List Request) (streamed : Bytes) (bodies : List Bytes)
    (w : World) : Prop
    extends Sent env before bodies w where
  full : ∀ body ∈ bodies, body.length = partBytes
  room : w.buffer.length < partBytes
  content : bodies.flatten ++ w.buffer = streamed

/-- `w'` differs from `w` in the upload alone: its job, its record and the
bytes taken are the same. -/
structure Keeps (w w' : World) : Prop where
  job : w'.job = w.job
  record : w'.record = w.record
  processed : w'.processed = w.processed

theorem Keeps.refl (w : World) : Keeps w w := ⟨rfl, rfl, rfl⟩

theorem Keeps.trans {w'' : World} (h : Keeps w w') (h' : Keeps w' w'') : Keeps w w'' :=
  ⟨h'.job.trans h.job, h'.record.trans h.record, h'.processed.trans h.processed⟩

def Request.isCompletion : Request → Bool
  | .completeMultipartUpload _ => true
  | _ => false

/-- The run ended without a completion since `before`; the record is as it was in `w`. -/
structure Unpublished (before : List Request) (w w' : World) : Prop where
  requests : ∃ rest, w'.requests = before ++ rest ∧ ∀ request ∈ rest, request.isCompletion = false
  record : w'.record = w.record

theorem Unpublished.of_keeps {w'' : World} (hkeeps : Keeps w w') (h : Unpublished before w' w'') :
    Unpublished before w w'' :=
  ⟨h.requests, h.record.trans hkeeps.record⟩

theorem partRequests_isCompletion :
    ∀ request ∈ partRequests bodies, request.isCompletion = false := by
  intro request hrequest
  obtain ⟨i, hi, rfl⟩ := List.mem_mapIdx.mp hrequest
  rfl

theorem Sent.unpublished (h : Sent env before bodies w') (hrecord : w'.record = w.record) :
    Unpublished before w w' :=
  ⟨⟨partRequests bodies, h.requests, partRequests_isCompletion⟩, hrecord⟩

/-! ## Updates and parts -/

theorem wp_send {request : Request} {Q : Unit → World → Prop} {E : Failure → World → Prop} :
    wp (send request) Q E w ↔ Q () { w with requests := w.requests ++ [request] } := Iff.rfl

theorem wp_update {fields : ExportJob → ExportJob} {Q : Unit → World → Prop}
    {E : Failure → World → Prop} :
    wp (update env fields) Q E w ↔
      (env.updates w.updates = true →
        Q () { w with updates := w.updates + 1, record := fields w.record }) ∧
      (env.updates w.updates = false → E .rejected { w with updates := w.updates + 1 }) := by
  unfold update
  rw [wp_bind, wp_get, wp_bind, wp_modify, wp_ite, wp_modify, wp_throw, Bool.not_eq_true]

/-- What the buffer holds becomes the next part. -/
theorem wp_part (h : Sent env before bodies w) :
    wp (part env) (fun _ w' =>
      Sent env before (bodies ++ if w.buffer.isEmpty then [] else [w.buffer]) w' ∧ w'.buffer = [] ∧
        Keeps w w')
      (fun _ w' => Unpublished before w w') w := by
  unfold part
  rw [wp_bind, wp_get, wp_ite]
  have hnumber : w.parts.length + 1 = bodies.length + 1 := by
    rw [h.parts]
    simp [completedParts]
  refine ⟨fun hempty => ?_, fun hsome => ?_⟩
  · rw [wp_pure, if_pos hempty, List.append_nil]
    exact ⟨h, List.isEmpty_iff.mp hempty, .refl w⟩
  · rw [if_neg hsome]
    have hnone : Unpublished before w w := h.unpublished rfl
    rw [wp_bind, wp_refuseIf]
    refine ⟨fun _ => hnone, fun _ => ?_⟩
    rw [hnumber, wp_bind, wp_send]
    -- the request was sent
    have hsent : ∀ sent : World,
        sent.requests = w.requests ++ [.uploadPart (bodies.length + 1) w.buffer] →
        sent.record = w.record → Unpublished before w sent := by
      intro sent hrequests hrecord
      refine ⟨⟨partRequests (bodies ++ [w.buffer]), ?_, partRequests_isCompletion⟩, hrecord⟩
      rw [hrequests, h.requests, partRequests_concat, List.append_assoc]
    split
    · exact hsent _ rfl rfl
    · next tag hanswer =>
        have htag : tagOf env (bodies.length + 1) = tag.getD "" := by
          unfold tagOf
          rw [hanswer]
          rfl
        rw [wp_bind, wp_refuseIf]
        refine ⟨fun _ => hsent _ rfl rfl, fun hacknowledged => ?_⟩
        rw [wp_bind, wp_modify, wp_update]
        refine ⟨fun _ => ⟨?_, rfl, ⟨rfl, rfl, rfl⟩⟩, fun _ => hsent _ rfl rfl⟩
        refine ⟨?_, ?_, fun i hi => ?_, ?_, ?_⟩
        · rw [partRequests_concat, ← List.append_assoc, ← h.requests]
        · rw [completedParts_concat, ← h.parts, htag]
        · rw [List.length_append, List.length_singleton, Nat.lt_succ_iff_lt_or_eq] at hi
          rcases hi with hi | rfl
          · exact h.acknowledged i hi
          · rw [htag]
            simpa using hacknowledged
        · dsimp only
          rw [h.uploaded, List.flatten_append, List.length_append, List.flatten_singleton]
        · intro body hbody
          rcases List.mem_append.mp hbody with hbody | hbody
          · exact h.nonempty body hbody
          · rw [List.mem_singleton.mp hbody]
            exact fun hnil => hsome (List.isEmpty_iff.mpr hnil)

/-! ## The writer -/

/-- A chunk goes to the buffer and to parts of full size. -/
theorem wp_fill {fuel : Nat} (h : Filled env before streamed bodies w)
    (hfuel : chunk.length ≤ fuel) :
    wp (fill env fuel chunk) (fun _ w' =>
      (∃ bodies', Filled env before (streamed ++ chunk) bodies' w') ∧
      Keeps w w') (fun _ w' => Unpublished before w w') w := by
  induction fuel generalizing w bodies streamed chunk with
  | zero =>
      obtain rfl : chunk = [] := List.eq_nil_of_length_eq_zero (Nat.le_zero.mp hfuel)
      unfold fill
      rw [wp_pure, List.append_nil]
      exact ⟨⟨bodies, h⟩, .refl w⟩
  | succ fuel ih =>
      unfold fill
      rw [wp_ite]
      refine ⟨fun hempty => ?_, fun hsome => ?_⟩
      · rw [wp_pure, List.isEmpty_iff.mp hempty, List.append_nil]
        exact ⟨⟨bodies, h⟩, .refl w⟩
      · rw [wp_bind, wp_get]
        dsimp only
        rw [wp_bind, wp_modify, wp_bind, wp_get]
        have hpos : 0 < chunk.length :=
          List.length_pos_iff.mpr fun hnil => hsome (List.isEmpty_iff.mpr hnil)
        have hroom := h.room
        -- a turn takes what fits into the buffer
        generalize hn : min (partBytes - w.buffer.length) chunk.length = n
        have hrest : (chunk.drop n).length ≤ fuel := by
          rw [List.length_drop]
          omega
        have hlength : (w.buffer ++ chunk.take n).length = w.buffer.length + n := by
          rw [List.length_append, List.length_take]
          omega
        have hsent : Sent env before bodies { w with buffer := w.buffer ++ chunk.take n } :=
          ⟨h.requests, h.parts, h.acknowledged, h.uploaded, h.nonempty⟩
        have hcontent : bodies.flatten ++ (w.buffer ++ chunk.take n) =
            streamed ++ chunk.take n := by
          rw [← List.append_assoc, h.content]
        have hwhole : streamed ++ chunk.take n ++ chunk.drop n = streamed ++ chunk := by
          rw [List.append_assoc, List.take_append_drop]
        have hkeeps : Keeps w { w with buffer := w.buffer ++ chunk.take n } := ⟨rfl, rfl, rfl⟩
        rw [wp_ite]
        refine ⟨fun hfull => ?_, fun hnot => ?_⟩
        -- a full buffer becomes a part, and the loop goes on with an empty one
        · have hsize : (w.buffer ++ chunk.take n).length = partBytes := beq_iff_eq.mp hfull
          have hne : (w.buffer ++ chunk.take n).isEmpty = false := by
            rw [Bool.eq_false_iff, ne_eq, List.isEmpty_iff, ← List.length_eq_zero_iff, hsize]
            decide
          refine ((wp_part hsent).mono (fun _ _ => id) fun _ _ =>
            .of_keeps hkeeps).bind fun _ next hpart => ?_
          obtain ⟨hnext, hbuffer, hkeeps'⟩ := hpart
          dsimp only at hnext
          rw [hne, if_neg nofun] at hnext
          have hfilled : Filled env before (streamed ++ chunk.take n)
              (bodies ++ [w.buffer ++ chunk.take n]) next := by
            refine ⟨hnext, fun body hbody => ?_, ?_, ?_⟩
            · rcases List.mem_append.mp hbody with hbody | hbody
              · exact h.full body hbody
              · rw [List.mem_singleton.mp hbody]
                exact hsize
            · rw [hbuffer]
              decide
            · rw [hbuffer, List.append_nil, List.flatten_append, List.flatten_singleton]
              exact hcontent
          refine (ih hfilled hrest).mono (fun _ last hlast => ?_) fun _ _ =>
            .of_keeps (hkeeps.trans hkeeps')
          rw [hwhole] at hlast
          exact ⟨hlast.1, hkeeps.trans (hkeeps'.trans hlast.2)⟩
        -- a buffer that is not full has taken the whole chunk
        · have hsize : (w.buffer ++ chunk.take n).length ≠ partBytes := fun heq =>
            hnot (beq_iff_eq.mpr heq)
          have hfilled : Filled env before (streamed ++ chunk.take n) bodies { w with
              buffer := w.buffer ++ chunk.take n } := by
            refine ⟨hsent, h.full, ?_, hcontent⟩
            dsimp only
            omega
          refine (ih hfilled hrest).mono (fun _ last hlast => ?_) fun _ _ => .of_keeps hkeeps
          rw [hwhole] at hlast
          exact ⟨hlast.1, hkeeps.trans hlast.2⟩

/-- All that was taken is within the limits. -/
structure Taken (env : Env) (before : List Request) (archiveBytes : Nat) (streamed : Bytes)
    (w : World) : Prop where
  filled : ∃ bodies, Filled env before streamed bodies w
  processed : w.processed = streamed.length
  quota : (quota w.job).any (· < w.processed) = false

theorem wp_write (h : Taken env before archiveBytes streamed w) :
    wp (write env archiveBytes chunk) (fun _ w' =>
      Taken env before archiveBytes (streamed ++ chunk) w' ∧ w'.job = w.job ∧
        w'.record = w.record)
      (fun _ w' => Unpublished before w w') w := by
  obtain ⟨bodies, hfilled⟩ := h.filled
  unfold write
  rw [wp_bind, wp_modify, wp_bind, wp_get, wp_bind, wp_refuseIf]
  have hnone : Unpublished before w { w with processed := w.processed + chunk.length } :=
    Sent.unpublished ⟨hfilled.requests, hfilled.parts, hfilled.acknowledged, hfilled.uploaded,
      hfilled.nonempty⟩ rfl
  refine ⟨fun _ => hnone, fun hwithin => ?_⟩
  have hbefore : Filled env before streamed bodies { w with
      processed := w.processed + chunk.length } :=
    ⟨⟨hfilled.requests, hfilled.parts, hfilled.acknowledged, hfilled.uploaded, hfilled.nonempty⟩,
      hfilled.full, hfilled.room,
      hfilled.content⟩
  refine ((wp_fill hbefore (Nat.le_refl _)).mono (fun _ _ => id) fun _ _ hfailed =>
    ⟨hfailed.requests, hfailed.record⟩).bind
    fun _ next hnext => ?_
  obtain ⟨⟨bodies', hfilled'⟩, hkeeps⟩ := hnext
  -- What follows changes none of the fields that `Taken` speaks of.
  have htaken : ∀ last : World, last.requests = next.requests → last.parts = next.parts →
      last.uploaded = next.uploaded →
      last.buffer = next.buffer → last.processed = next.processed → last.job = next.job →
      Taken env before archiveBytes (streamed ++ chunk) last := by
    intro last hrequests hparts huploaded hbuffer hprocessed hjob
    refine ⟨⟨bodies',
      ⟨⟨?_, ?_, hfilled'.acknowledged, ?_, hfilled'.nonempty⟩, hfilled'.full, ?_, ?_⟩⟩, ?_, ?_⟩
    · rw [hrequests, hfilled'.requests]
    · rw [hparts, hfilled'.parts]
    · rw [huploaded, hfilled'.uploaded]
    · rw [hbuffer]
      exact hfilled'.room
    · rw [hbuffer]
      exact hfilled'.content
    · rw [hprocessed, hkeeps.processed, List.length_append]
      exact congrArg (· + chunk.length) h.processed
    · rw [hjob, hprocessed, hkeeps.job, hkeeps.processed]
      exact (Bool.or_eq_false_iff.mp hwithin).2
  have hfailed : Unpublished before w next := hfilled'.toSent.unpublished hkeeps.record
  rw [wp_bind, wp_get, wp_ite]
  refine ⟨fun _ => ?_, fun _ => ?_⟩
  · rw [wp_update]
    exact ⟨fun _ => ⟨htaken _ rfl rfl rfl rfl rfl rfl, hkeeps.job, hkeeps.record⟩,
      fun _ => ⟨hfailed.requests, hfailed.record⟩⟩
  · rw [wp_pure]
    exact ⟨htaken next rfl rfl rfl rfl rfl rfl, hkeeps.job, hkeeps.record⟩

theorem wp_chunks (chunks : List Bytes) (h : Taken env before archiveBytes streamed w) :
    wp (chunks.forM (write env archiveBytes)) (fun _ w' =>
      Taken env before archiveBytes (streamed ++ chunks.flatten) w' ∧
        w'.job = w.job ∧ w'.record = w.record)
      (fun _ w' => Unpublished before w w') w := by
  induction chunks generalizing w streamed with
  | nil =>
      rw [List.flatten_nil, List.append_nil]
      exact ⟨h, rfl, rfl⟩
  | cons chunk rest ih =>
      have hcons : (chunk :: rest).forM (write env archiveBytes) =
          write env archiveBytes chunk >>= fun _ => rest.forM (write env archiveBytes) := rfl
      rw [hcons, List.flatten_cons, ← List.append_assoc]
      refine (wp_write h).bind fun _ next hnext => ?_
      refine (ih hnext.1).mono (fun _ last hlast => ?_) fun _ _ hfailed =>
        ⟨hfailed.requests, hfailed.record.trans hnext.2.2⟩
      exact ⟨hlast.1, hlast.2.1.trans hnext.2.1, hlast.2.2.trans hnext.2.2⟩

/-! ## The completion -/

/-- What a completion publishes: the parts are those of the archive, in full size but the last. -/
structure Exact (env : Env) (archiveBytes : Nat) (bodies : List Bytes) : Prop where
  acknowledged : ∀ i, i < bodies.length → tagOf env (i + 1) ≠ ""
  content : bodies.flatten = env.chunks.flatten
  bytes : bodies.flatten.length = archiveBytes
  full : ∀ body ∈ bodies.dropLast, body.length = partBytes
  small : ∀ body ∈ bodies, body.length ≤ partBytes
  nonempty : ∀ body ∈ bodies, body ≠ []
  some : bodies ≠ []

/-- A run from `w` published the archive: after one creation and the parts came one completion,
which lists the parts by their numbers, and the record says that it was attempted. -/
structure Published (env : Env) (archiveBytes : Nat) (w w' : World) (bodies : List Bytes) :
    Prop where
  exact : Exact env archiveBytes bodies
  requests : w'.requests = w.requests ++ .createMultipartUpload :: partRequests bodies ++
    [.completeMultipartUpload (completedParts env bodies)]
  fresh : w.job.publicationAttempted = false
  attempted : w'.record.publicationAttempted = true

/-- A run from `w` ended without a completion, and did not take back that one was attempted. -/
structure Quiet (w w' : World) : Prop where
  requests : ∃ rest, w'.requests = w.requests ++ rest ∧ ∀ request ∈ rest,
    request.isCompletion = false
  attempted : w.record.publicationAttempted = true → w'.record.publicationAttempted = true

/-- How a run ends: without a completion, or with one of the whole archive, within its limit. -/
def Ended (env : Env) (archiveBytes : Nat) (w w' : World) : Prop :=
  Quiet w w' ∨
  (∃ bodies, Published env archiveBytes w w' bodies) ∧ ∀ limit, quota w.job = some limit →
  archiveBytes ≤ limit

theorem Unpublished.quiet (h : Unpublished (w.requests ++ [.createMultipartUpload]) w w') :
    Quiet w w' := by
  obtain ⟨rest, hrequests, hrest⟩ := h.requests
  refine ⟨⟨.createMultipartUpload :: rest, ?_, List.forall_mem_cons.mpr ⟨rfl, hrest⟩⟩,
    fun hattempted => ?_⟩
  · rw [hrequests, List.append_assoc]
    rfl
  · rw [h.record]
    exact hattempted

theorem exact_of_ended {final : List Bytes} (hfinal : final.flatten = env.chunks.flatten)
    (hbytes : env.chunks.flatten.length = archiveBytes) (hsent : Sent env before final w)
    (hsome : final ≠ []) (hfull : ∀ body ∈ bodies, body.length = partBytes) {rest : Bytes}
    (hroom : rest.length < partBytes)
    (heq : final = bodies ++ if rest.isEmpty then [] else [rest]) :
    Exact env archiveBytes final where
  acknowledged := hsent.acknowledged
  content := hfinal
  bytes := by rw [hfinal, hbytes]
  nonempty := hsent.nonempty
  some := hsome
  full := by
    intro body hbody
    rw [heq] at hbody
    split at hbody
    · rw [List.append_nil] at hbody
      exact hfull body (List.dropLast_subset _ hbody)
    · rw [List.dropLast_concat] at hbody
      exact hfull body hbody
  small := by
    intro body hbody
    rw [heq] at hbody
    rcases List.mem_append.mp hbody with hbody | hbody
    · exact Nat.le_of_eq (hfull body hbody)
    · split at hbody
      · exact absurd hbody List.not_mem_nil
      · rw [List.mem_singleton.mp hbody]
        exact Nat.le_of_lt hroom

theorem wp_uploadWire :
    wp (uploadWire env archiveBytes) (fun _ => Ended env archiveBytes w)
      (fun _ => Ended env archiveBytes w) w := by
  have hstart : Ended env archiveBytes w w := .inl ⟨⟨[], by simp, nofun⟩, id⟩
  unfold uploadWire
  rw [wp_bind, wp_get]
  dsimp only
  rw [wp_bind, wp_refuseIf]
  refine ⟨fun _ => hstart, fun hfresh => ?_⟩
  rw [wp_bind, wp_refuseIf]
  refine ⟨fun _ => hstart, fun _ => ?_⟩
  have hquiet : ∀ w', Unpublished (w.requests ++ [.createMultipartUpload]) w w' →
      Ended env archiveBytes w w' :=
    fun _ h => .inl h.quiet
  have hcreated : ∀ w' : World, w'.requests = w.requests ++ [.createMultipartUpload] →
      w'.record = w.record →
      Ended env archiveBytes w w' := fun w' hrequests hrecord =>
    hquiet w' ⟨⟨[], by rw [hrequests, List.append_nil], nofun⟩, hrecord⟩
  rw [wp_bind, wp_send, wp_bind, wp_refuseIf]
  refine ⟨fun _ => hcreated _ rfl rfl, fun _ => ?_⟩
  rw [wp_bind, wp_update]
  refine ⟨fun _ => ?_, fun _ => hcreated _ rfl rfl⟩
  rw [wp_bind, wp_modify]
  have htaken : Taken env (w.requests ++ [.createMultipartUpload]) archiveBytes [] { w with
      requests := w.requests ++ [.createMultipartUpload], updates := w.updates + 1,
      record := id w.record
      buffer := [], processed := 0, uploaded := 0, parts := [] } := by
    refine ⟨⟨[], ⟨⟨?_, rfl, nofun, rfl, nofun⟩, nofun, (by decide : 0 < partBytes), rfl⟩⟩, rfl, ?_⟩
    · exact (List.append_nil _).symm
    · cases quota w.job <;> simp
  refine ((wp_chunks env.chunks htaken).mono (fun _ _ => id) fun _ w' hfailed =>
    hquiet w' ⟨hfailed.requests, hfailed.record⟩).bind fun _ taken htaken' => ?_
  obtain ⟨htaken', hjob, hrecord⟩ := htaken'
  obtain ⟨bodies, hfilled⟩ := htaken'.filled
  rw [wp_bind, wp_refuseIf]
  refine ⟨fun _ => hquiet _ (hfilled.toSent.unpublished hrecord), fun _ => ?_⟩
  refine ((wp_part hfilled.toSent).mono (fun _ _ => id) fun _ w' hfailed =>
    hquiet w' ⟨hfailed.requests, hfailed.record.trans hrecord⟩).bind fun _ sent hsent => ?_
  obtain ⟨hsent, hbuffer, hkeeps⟩ := hsent
  have hunpublished : ∀ w' : World, w'.requests = sent.requests → w'.record = sent.record →
      Ended env archiveBytes w w' := by
    intro w' hrequests hrecord'
    refine hquiet w' ⟨⟨_, hrequests.trans hsent.requests, partRequests_isCompletion⟩, ?_⟩
    exact hrecord'.trans (hkeeps.record.trans hrecord)
  rw [wp_bind, wp_get, wp_bind, wp_refuseIf]
  refine ⟨fun _ => hunpublished _ rfl rfl, fun hcounts => ?_⟩
  rw [wp_bind, wp_refuseIf]
  refine ⟨fun _ => hunpublished _ rfl rfl, fun _ => ?_⟩
  rw [wp_bind, wp_modify, wp_bind, wp_update]
  refine ⟨fun _ => ?_, fun _ => hunpublished _ rfl rfl⟩
  -- from here on the record says that the publication was attempted
  generalize hfinal : bodies ++ (if taken.buffer.isEmpty then [] else [taken.buffer]) =
    final at hsent
  have hexact : Exact env archiveBytes final := by
    simp only [Bool.or_eq_false_iff, bne_eq_false_iff_eq] at hcounts
    have hcontent : final.flatten = env.chunks.flatten := by
      rw [← hfinal, ← List.nil_append env.chunks.flatten, ← hfilled.content, List.flatten_append]
      split
      · next hempty => rw [List.isEmpty_iff.mp hempty, List.flatten_nil]
      · rw [List.flatten_singleton]
    have hbytes : env.chunks.flatten.length = archiveBytes := by
      rw [← hcounts.1.1, hkeeps.processed, htaken'.processed, List.nil_append]
    have hsome : final ≠ [] := by
      rintro rfl
      have hparts := hcounts.2
      rw [hsent.parts] at hparts
      cases hparts
    exact exact_of_ended hcontent hbytes hsent hsome hfilled.full hfilled.room hfinal.symm
  have hpublished : ∀ w' : World,
      w'.requests = sent.requests ++ [.completeMultipartUpload sent.parts] →
      w'.record.publicationAttempted = true → Ended env archiveBytes w w' := by
    intro w' hrequests hattempted
    refine .inr ⟨⟨final, hexact, ?_, (Bool.or_eq_false_iff.mp hfresh).1, hattempted⟩,
      fun limit hlimit => ?_⟩
    · rw [hrequests, hsent.requests, hsent.parts]
      simp only [List.append_assoc, List.cons_append, List.nil_append]
    · have hquota := htaken'.quota
      rw [hjob, hlimit, htaken'.processed, List.nil_append, ← hexact.content,
        hexact.bytes] at hquota
      simpa using hquota
  rw [wp_bind, wp_refuseIf]
  refine ⟨fun _ => .inl ⟨⟨.createMultipartUpload :: partRequests final, ?_, ?_⟩, fun _ => rfl⟩,
    fun _ => ?_⟩
  · dsimp only
    rw [hsent.requests, List.append_assoc]
    rfl
  · exact List.forall_mem_cons.mpr ⟨rfl, partRequests_isCompletion⟩
  rw [wp_bind, wp_get, wp_bind, wp_send, wp_bind, wp_refuseIf]
  refine ⟨fun _ => hpublished _ rfl rfl, fun _ => ?_⟩
  rw [wp_bind, wp_modify, wp_update]
  exact ⟨fun _ => hpublished _ rfl rfl, fun _ => hpublished _ rfl rfl⟩

/-! ## The number of parts -/

theorem length_flatten_of_full (hfull : ∀ body ∈ bodies, body.length = partBytes) :
    bodies.flatten.length = bodies.length * partBytes := by
  induction bodies with
  | nil => rfl
  | cons body rest ih =>
      obtain ⟨hbody, hrest⟩ := List.forall_mem_cons.mp hfull
      rw [List.flatten_cons, List.length_append, ih hrest, hbody, List.length_cons,
        Nat.succ_mul, Nat.add_comm]

/-- All parts but the last are full, so an archive of at most 10000 full
parts has at most 10000 parts. -/
theorem Exact.length_le (h : Exact env archiveBytes bodies)
    (hbytes : archiveBytes ≤ 10000 * partBytes) :
    bodies.length ≤ 10000 := by
  have hsplit := List.dropLast_append_getLast h.some
  have hlast : 0 < (bodies.getLast h.some).length :=
    List.length_pos_iff.mpr (h.nonempty _ (List.getLast_mem h.some))
  have hflatten : bodies.flatten = bodies.dropLast.flatten ++ bodies.getLast h.some := by
    rw [← List.flatten_concat, hsplit]
  have hlength := h.bytes
  rw [hflatten, List.length_append, length_flatten_of_full h.full, List.length_dropLast] at hlength
  by_contra hmore
  have hle : 10000 * partBytes ≤ (bodies.length - 1) * partBytes :=
    Nat.mul_le_mul_right _ (by omega)
  omega

theorem encryptedBytes_le (h : n ≤ maxObjectBytes) :
    encryptedBytes n ≤ 10000 * partBytes := by
  simp only [maxObjectBytes] at h
  simp only [encryptedBytes, ceilDiv, exportChunkBytes, tagBytes, partBytes]
  omega

theorem maxObjectBytes_le : maxObjectBytes ≤ 10000 * partBytes := by
  decide

/-! ## Whole uploads -/

/-- The bytes that are uploaded of an archive. -/
def wireBytes (job : ExportJob) (archiveBytes : Nat) : Nat :=
  if job.applicationEncrypted then encryptedBytes archiveBytes else archiveBytes

/-- A run published the archive, in at most 10000 parts. -/
structure Completed (env : Env) (archiveBytes : Nat) (w w' : World) (bodies : List Bytes) : Prop
    extends Published env (wireBytes w.job archiveBytes) w w' bodies where
  length_le : bodies.length ≤ 10000

/-- How a whole upload ends. -/
def Uploaded (env : Env) (archiveBytes : Nat) (w w' : World) : Prop :=
  Quiet w w' ∨ ∃ bodies, Completed env archiveBytes w w' bodies

theorem create_bytes {sha256 context : String} {noncePrefix salt : Bytes} {m : Manifest}
    (h : Manifest.create n sha256 noncePrefix salt context = some m) :
    m.ciphertextBytes = encryptedBytes n ∧ n ≤ maxObjectBytes := by
  unfold Manifest.create at h
  split at h
  · next hbounds =>
      rw [← Option.some.inj h]
      exact ⟨rfl, hbounds.2.1⟩
  · cases h

/-- What `uploadWire` ends in, seen from the start of the upload. -/
theorem Ended.uploaded {bytes limit : Nat} {start : World} (h : Ended env bytes start w')
    (hrequests : start.requests = w.requests)
    (hfresh : start.job.publicationAttempted = w.job.publicationAttempted)
    (hrecord : start.record.publicationAttempted = w.record.publicationAttempted)
    (hwire : bytes = wireBytes w.job archiveBytes) (hquota : quota start.job = some limit)
    (hlimit : limit ≤ 10000 * partBytes) : Uploaded env archiveBytes w w' := by
  rcases h with hquiet | ⟨⟨bodies, hpublished⟩, hwithin⟩
  · refine .inl ⟨?_, ?_⟩
    · rw [← hrequests]
      exact hquiet.requests
    · rw [← hrecord]
      exact hquiet.attempted
  · have hbytes : bytes ≤ 10000 * partBytes := Nat.le_trans (hwithin limit hquota) hlimit
    have hlength := hpublished.exact.length_le hbytes
    have hsent := hpublished.requests
    have hfirst := hpublished.fresh
    rw [hrequests] at hsent
    rw [hfresh] at hfirst
    exact .inr ⟨bodies, ⟨⟨hwire ▸ hpublished.exact, hsent, hfirst, hpublished.attempted⟩, hlength⟩⟩

theorem wp_upload :
    wp (upload env archiveBytes) (fun _ => Uploaded env archiveBytes w)
      (fun _ => Uploaded env archiveBytes w) w := by
  have hstart : Quiet w w := ⟨⟨[], by simp, nofun⟩, id⟩
  unfold upload
  rw [wp_bind, wp_get, wp_ite]
  refine ⟨fun hplain => ?_, fun hencrypted => ?_⟩
  · have hplain' : w.job.applicationEncrypted = false := by simpa using hplain
    have hquota : quota w.job = some maxObjectBytes := by
      unfold quota
      rw [hplain', if_neg nofun]
    have hwire : archiveBytes = wireBytes w.job archiveBytes := by
      unfold wireBytes
      rw [hplain', if_neg nofun]
    have hended : ∀ w', Ended env archiveBytes w w' → Uploaded env archiveBytes w w' := fun w' h =>
      h.uploaded rfl rfl rfl hwire hquota maxObjectBytes_le
    exact wp_uploadWire.mono (fun _ => hended) fun _ => hended
  · have hencrypted' : w.job.applicationEncrypted = true := by simpa using hencrypted
    rw [wp_bind, wp_refuseIf]
    refine ⟨fun _ => .inl hstart, fun _ => ?_⟩
    split
    · exact .inl hstart
    · next manifest hmanifest =>
        obtain ⟨hbytes, hbound⟩ := create_bytes hmanifest
        rw [wp_bind, wp_modify, wp_bind, wp_update]
        refine ⟨fun _ => ?_, fun _ => .inl ⟨hstart.requests, id⟩⟩
        have hwire : manifest.ciphertextBytes = wireBytes w.job archiveBytes := by
          unfold wireBytes
          rw [hencrypted', if_pos rfl, hbytes]
        have hquota : quota { w.job with encryption := some manifest } =
            some manifest.ciphertextBytes := by
          simp only [quota, hencrypted', if_pos, storedExportBytes, Option.map_some]
          rfl
        have hlimit : manifest.ciphertextBytes ≤ 10000 * partBytes := by
          rw [hbytes]
          exact encryptedBytes_le hbound
        refine wp_uploadWire.mono (fun _ w' h => ?_) fun _ w' h => ?_
        · exact h.uploaded rfl rfl rfl hwire hquota hlimit
        · exact h.uploaded rfl rfl rfl hwire hquota hlimit

/-! ## All runs of a job -/

/-- A run starts from the record, so that one that publishes is the first that attempted to. -/
theorem attempt_uploaded (w : World) (run : Env × Nat) :
    Uploaded run.1 run.2 { w with job := w.record } (attempt w run) := by
  have h : wp (upload run.1 run.2) (fun _ => Uploaded run.1 run.2 { w with job := w.record })
      (fun _ => Uploaded run.1 run.2 { w with job := w.record }) { w with job := w.record } :=
        wp_upload
  unfold wp at h
  unfold attempt after
  split at h
  · next heq =>
      rw [heq]
      exact h
  · next heq =>
      rw [heq]
      exact h

/-- The completions since the first `n` requests. -/
def completions (n : Nat) (w : World) : List Request :=
  (w.requests.drop n).filter Request.isCompletion

/-- A completion was sent once at most, and not before the record says that one was attempted. -/
structure Once (n : Nat) (w : World) : Prop where
  bound : n ≤ w.requests.length
  atMost : (completions n w).length ≤ 1
  recorded : w.record.publicationAttempted = false → completions n w = []

theorem filter_isCompletion_eq_nil {requests : List Request}
    (h : ∀ request ∈ requests, request.isCompletion = false) :
    requests.filter Request.isCompletion = [] :=
  List.filter_eq_nil_iff.mpr fun request hrequest => by simp [h request hrequest]

theorem completions_append {more : List Request} (hbound : n ≤ w.requests.length)
    (h : w'.requests = w.requests ++ more) :
    completions n w' = completions n w ++ more.filter Request.isCompletion := by
  unfold completions
  rw [h, List.drop_append_of_le_length hbound, List.filter_append]

theorem Once.attempt (h : Once n w) (run : Env × Nat) : Once n (attempt w run) := by
  rcases attempt_uploaded w run with hquiet | ⟨bodies, hcompleted⟩
  · obtain ⟨rest, hrequests, hrest⟩ := hquiet.requests
    have hsame : completions n (Multipart.attempt w run) = completions n w := by
      rw [completions_append h.bound hrequests, filter_isCompletion_eq_nil hrest, List.append_nil]
    refine ⟨?_, ?_, fun hattempted => ?_⟩
    · rw [hrequests, List.length_append]
      exact Nat.le_trans h.bound (Nat.le_add_right _ _)
    · rw [hsame]
      exact h.atMost
    · rw [hsame]
      refine h.recorded (Bool.eq_false_iff.mpr fun hbefore => ?_)
      rw [hquiet.attempted hbefore] at hattempted
      cases hattempted
  · have hrequests := hcompleted.requests
    rw [List.append_assoc] at hrequests
    refine ⟨?_, ?_, fun hattempted => ?_⟩
    · rw [hrequests, List.length_append]
      exact Nat.le_trans h.bound (Nat.le_add_right _ _)
    · rw [completions_append h.bound hrequests, h.recorded hcompleted.fresh,
        List.nil_append, List.cons_append, List.filter_cons_of_neg (by decide), List.filter_append,
        filter_isCompletion_eq_nil partRequests_isCompletion]
      exact Nat.le_refl 1
    · rw [hcompleted.attempted] at hattempted
      cases hattempted

theorem Once.attempts (h : Once n w) (runs : List (Env × Nat)) :
    Once n (runs.foldl Multipart.attempt w) := by
  induction runs generalizing w with
  | nil => exact h
  | cons run rest ih => exact ih (h.attempt run)

/-- Over all runs of a job a completion is sent once at most. A run that sends one has sent
parts before it that are exactly what its archive wrote: all are full but the last, none is
empty, each was acknowledged, there are at most 10000 and the completion lists them all. -/
theorem completion_exact (w : World) (runs : List (Env × Nat)) :
    (completions w.requests.length (runs.foldl attempt w)).length ≤ 1 ∧
    ∀ (env : Env) (archiveBytes : Nat) (parts : List (Nat × String)),
      .completeMultipartUpload parts ∈
        (attempt (runs.foldl attempt w) (env, archiveBytes)).requests.drop
        (runs.foldl attempt w).requests.length →
      ∃ bodies : List Bytes,
        (attempt (runs.foldl attempt w) (env, archiveBytes)).requests =
          (runs.foldl attempt w).requests ++
          .createMultipartUpload :: partRequests bodies ++ [.completeMultipartUpload parts] ∧
        parts = completedParts env bodies ∧
        Exact env (wireBytes (runs.foldl attempt w).record archiveBytes) bodies ∧
        bodies.length ≤ 10000 := by
  have hstart : Once w.requests.length w := by
    have hnone : completions w.requests.length w = [] := by
      unfold completions
      rw [List.drop_length, List.filter_nil]
    refine ⟨Nat.le_refl _, ?_, fun _ => hnone⟩
    rw [hnone]
    exact Nat.zero_le 1
  refine ⟨(hstart.attempts runs).atMost, fun env archiveBytes parts hmem => ?_⟩
  generalize runs.foldl attempt w = last at hmem
  rcases attempt_uploaded last (env, archiveBytes) with hquiet | ⟨bodies, hcompleted⟩
  · obtain ⟨rest, hrequests, hrest⟩ := hquiet.requests
    rw [hrequests, List.drop_left] at hmem
    cases hrest _ hmem
  · have hrequests := hcompleted.requests
    have hparts : parts = completedParts env bodies := by
      rw [hrequests, List.append_assoc, List.drop_left] at hmem
      rcases List.mem_append.mp hmem with hmem | hmem
      · rcases List.mem_cons.mp hmem with heq | hmem
        · cases heq
        · cases partRequests_isCompletion _ hmem
      · exact Request.completeMultipartUpload.inj (List.mem_singleton.mp hmem)
    exact ⟨bodies, hparts ▸ hrequests, hparts, hcompleted.exact, hcompleted.length_le⟩

end Pluton.Export.Multipart
