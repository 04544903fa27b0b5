-- SUMMARY: Consumers of a byte stream, and why it does not matter how the stream is cut.
import Pluton.Ends

/-!
# Streams that arrive in chunks

An incremental consumer keeps a state between chunks. Inside a chunk it takes, over
and over, as many bytes as it has room for or as the chunk still holds, and may
finish a unit (a header, a frame, a payload) when the room is used up. A consumer
that is `Lawful` cannot tell where a chunk ends: feeding it a chunk is feeding it
the bytes of the chunk one by one.
-/
namespace Chunked

variable {σ ε β : Type}

/-- `room` is the number of bytes a state takes at once, `put` takes a piece of at
most that many. -/
structure Consumer (σ ε β : Type) where
  room : σ → Nat
  put : σ → List β → Except ε σ

namespace Consumer

/-- The loop over one chunk. Every round takes a byte at least, so the length of
the chunk is enough fuel. -/
def loop (c : Consumer σ ε β) : Nat → σ → List β → Except ε σ
  | 0, s, _ => .ok s
  | fuel + 1, s, bytes =>
    if bytes.isEmpty then .ok s
    else do
      let size := min (c.room s) bytes.length
      let s' ← c.put s (bytes.take size)
      c.loop fuel s' (bytes.drop size)

def consume (c : Consumer σ ε β) (s : σ) (chunk : List β) : Except ε σ :=
  c.loop chunk.length s chunk

/-- The consumer that is fed one byte at a time. -/
def bytes (c : Consumer σ ε β) (s : σ) (bs : List β) : Except ε σ :=
  bs.foldlM (fun s b => c.put s [b]) s

@[simp] theorem bytes_nil (c : Consumer σ ε β) (s : σ) : c.bytes s [] = .ok s := rfl

theorem consume_ends {c : Consumer σ ε β} {Inv : σ → Prop} {E : ε → Prop} {s : σ} {chunk : List β}
    (hput : ∀ s piece, Inv s → (c.put s piece).Ends Inv E) (hs : Inv s) :
    (c.consume s chunk).Ends Inv E := by
  have hloop : ∀ fuel s bytes, Inv s → (c.loop fuel s bytes).Ends Inv E := by
    intro fuel
    induction fuel with
    | zero => exact fun s bytes hs => hs
    | succ fuel ih =>
        intro s bytes hs
        apply Except.Ends.ite
        · exact fun _ => hs
        · exact fun _ => (hput s _ hs).bind fun s' hs' => ih s' _ hs'
  exact hloop chunk.length s chunk hs

/-- A chunk that there is room for is one piece. -/
theorem consume_eq_put (c : Consumer σ ε β) {s : σ} {chunk : List β} (hne : chunk ≠ [])
    (hroom : chunk.length ≤ c.room s) : c.consume s chunk = c.put s chunk := by
  obtain ⟨b, bs, rfl⟩ := List.exists_cons_of_ne_nil hne
  have hsize : min (c.room s) (b :: bs).length = (b :: bs).length := Nat.min_eq_right hroom
  have hround : c.consume s (b :: bs) = c.put s (b :: bs) >>= fun s' => c.loop bs.length s' [] := by
    simp only [consume, List.length_cons, loop, List.isEmpty_cons, Bool.false_eq_true, if_false]
    rw [← List.length_cons (a := b), hsize, List.take_length, List.drop_length]
  rw [hround]
  cases c.put s (b :: bs) with
  | error e => rfl
  | ok s' => cases bs <;> rfl

theorem bytes_cons (c : Consumer σ ε β) (s : σ) (b : β) (bs : List β) :
    c.bytes s (b :: bs) = c.put s [b] >>= fun s' => c.bytes s' bs := rfl

theorem bytes_append (c : Consumer σ ε β) (s : σ) (bs bs' : List β) :
    c.bytes s (bs ++ bs') = c.bytes s bs >>= fun s' => c.bytes s' bs' := by
  simp [bytes, List.foldlM_append]

end Consumer

/-- The consumer does not see the boundaries between the pieces it is given, on the
states that satisfy `Inv`. -/
structure Lawful (c : Consumer σ ε β) (Inv : σ → Prop) : Prop where
  room_pos : ∀ {s}, Inv s → 0 < c.room s
  keep : ∀ {s s' b}, Inv s → c.put s [b] = .ok s' → Inv s'
  room_step : ∀ {s s' b}, Inv s → 1 < c.room s → c.put s [b] = .ok s' → c.room s' = c.room s - 1
  split : ∀ {s b b' bs}, Inv s → (b :: b' :: bs).length ≤ c.room s →
    c.put s (b :: b' :: bs) = c.put s [b] >>= fun s' => c.put s' (b' :: bs)

namespace Lawful

variable {c : Consumer σ ε β} {Inv : σ → Prop}

theorem keep_bytes (h : Lawful c Inv) {s s' : σ} {bs : List β} (hs : Inv s)
    (hbytes : c.bytes s bs = .ok s') : Inv s' := by
  induction bs generalizing s with
  | nil =>
      cases hbytes
      exact hs
  | cons b bs ih =>
      rw [Consumer.bytes_cons] at hbytes
      cases hput : c.put s [b] with
      | error e =>
          rw [hput] at hbytes
          cases hbytes
      | ok next =>
          rw [hput] at hbytes
          exact ih (h.keep hs hput) hbytes

/-- A piece that there is room for is its bytes. -/
theorem put_eq_bytes (h : Lawful c Inv) {s : σ} {piece : List β} (hs : Inv s)
    (hne : piece ≠ []) (hroom : piece.length ≤ c.room s) : c.put s piece = c.bytes s piece := by
  induction piece generalizing s with
  | nil => exact absurd rfl hne
  | cons b piece ih =>
      cases piece with
      | nil =>
          rw [Consumer.bytes_cons]
          cases c.put s [b] <;> rfl
      | cons b' bs =>
          rw [h.split hs hroom, Consumer.bytes_cons]
          cases hput : c.put s [b] with
          | error e => rfl
          | ok next =>
              have hlen : 1 < c.room s := by simp at hroom; omega
              have hnext : (b' :: bs).length ≤ c.room next := by
                rw [h.room_step hs hlen hput]
                simp at hroom ⊢
                omega
              exact ih (h.keep hs hput) (by simp) hnext

theorem loop_eq_bytes (h : Lawful c Inv) {fuel : Nat} {s : σ} {bs : List β} (hs : Inv s)
    (hfuel : bs.length ≤ fuel) : c.loop fuel s bs = c.bytes s bs := by
  induction fuel generalizing s bs with
  | zero =>
      have hnil : bs = [] := List.eq_nil_of_length_eq_zero (Nat.le_zero.mp hfuel)
      subst hnil
      rfl
  | succ fuel ih =>
      cases bs with
      | nil => rfl
      | cons b rest =>
          have hroom := h.room_pos hs
          let size := min (c.room s) (b :: rest).length
          have hsize : 0 < size := Nat.lt_min.mpr ⟨hroom, Nat.succ_pos _⟩
          -- one round is the first `size` bytes; the others follow by induction
          have hpiece : c.put s ((b :: rest).take size) = c.bytes s ((b :: rest).take size) := by
            apply h.put_eq_bytes hs
            · simp
              omega
            · rw [List.length_take]
              exact Nat.le_trans (Nat.min_le_left _ _) (Nat.min_le_left _ _)
          have hround : c.loop (fuel + 1) s (b :: rest) =
              c.put s ((b :: rest).take size) >>= fun s' =>
                c.loop fuel s' ((b :: rest).drop size) := rfl
          have hsplit : c.bytes s (b :: rest) =
              c.bytes s ((b :: rest).take size) >>= fun s' =>
                c.bytes s' ((b :: rest).drop size) := by
            rw [← Consumer.bytes_append, List.take_append_drop]
          rw [hround, hsplit, hpiece]
          cases hnext : c.bytes s ((b :: rest).take size) with
          | error e => rfl
          | ok next =>
              apply ih (h.keep_bytes hs hnext)
              simp only [List.length_drop, List.length_cons] at hfuel ⊢
              omega

theorem consume_eq_bytes (h : Lawful c Inv) {s : σ} (hs : Inv s) (chunk : List β) :
    c.consume s chunk = c.bytes s chunk :=
  h.loop_eq_bytes hs (Nat.le_refl _)

/-- Feeding chunks is feeding their concatenation. -/
theorem chunks_eq_bytes (h : Lawful c Inv) {s : σ} (hs : Inv s) (chunks : List (List β)) :
    chunks.foldlM c.consume s = c.bytes s chunks.flatten := by
  induction chunks generalizing s with
  | nil => rfl
  | cons chunk chunks ih =>
      rw [List.foldlM_cons, List.flatten_cons, Consumer.bytes_append, h.consume_eq_bytes hs]
      cases hnext : c.bytes s chunk with
      | error e => rfl
      | ok next => exact ih (h.keep_bytes hs hnext)

end Lawful

end Chunked
