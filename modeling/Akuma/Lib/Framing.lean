import Akuma.Lib.Panic

/-!
# Framed streams

A sender turns each message into a frame of bytes and writes the frames
back to back. The stream reaches the receiver cut into chunks of any size.
The receiver appends each chunk to a buffer and runs its decoder until the
decoder returns no message. Take a decoder that takes a whole frame off the
head of its buffer, and waits while the buffer holds only part of one. Then
every cut of the stream delivers exactly the messages, in order. It also
leaves the two sides in step, with an empty buffer.

The sender and the decoder are parameters, and so are the receiver's buffer
and the way a chunk is appended to it. `Sync t s` says that the receiver's
state apart from its buffer is in step with sender state `t`.
-/

namespace Framing

open Panicking

variable {α β μ σ τ ε : Type}

/-! ## The sender -/

section Sender

variable (send : τ → α → List β × τ)

/-- The frames for `as`, back to back, and the sender's state after them. -/
def sendAll : τ → List α → List β × τ
  | t, [] => ([], t)
  | t, a :: as => ((send t a).1 ++ (sendAll (send t a).2 as).1, (sendAll (send t a).2 as).2)

theorem sendAll_append (t : τ) (xs ys : List α) :
    sendAll send t (xs ++ ys) =
      ((sendAll send t xs).1 ++ (sendAll send (sendAll send t xs).2 ys).1,
        (sendAll send (sendAll send t xs).2 ys).2) := by
  induction xs generalizing t with
  | nil => rfl
  | cons a xs ih => simp [sendAll, ih]

/-- What the receiver holds of the frames for `as` when it is in step with
sender state `t`: a strict prefix of the first frame, or nothing once every
frame is in. -/
def Pending (t : τ) : List α → List β → Prop
  | [], b => b = []
  | a :: _, b => b <+: (send t a).1 ∧ b ≠ (send t a).1

/-- Any prefix of the stream is some whole frames followed by part of the
next one. -/
theorem exists_split_of_prefix :
    ∀ (as : List α) (t : τ) (w : List β), w <+: (sendAll send t as).1 →
      ∃ k b, w = (sendAll send t (as.take k)).1 ++ b ∧
        Pending send (sendAll send t (as.take k)).2 (as.drop k) b := by
  intro as
  induction as with
  | nil =>
    intro t w hw
    exact ⟨0, w, by simp [sendAll], List.prefix_nil.mp hw⟩
  | cons a as ih =>
    intro t w hw
    have hframe : (send t a).1 <+: (sendAll send t (a :: as)).1 := List.prefix_append _ _
    by_cases hlt : w.length < (send t a).1.length
    · -- `w` ends inside the first frame
      refine ⟨0, w, by simp [sendAll], ?_, ?_⟩
      · exact List.prefix_of_prefix_length_le hw hframe hlt.le
      · rintro rfl
        exact absurd hlt (lt_irrefl _)
    · -- `w` holds the whole first frame and a prefix of the others
      obtain ⟨w2, rfl⟩ := List.prefix_of_prefix_length_le hframe hw (by omega)
      have hw2 : w2 <+: (sendAll send (send t a).2 as).1 :=
        (List.prefix_append_right_inj _).mp hw
      obtain ⟨k, b, hk, hb⟩ := ih _ w2 hw2
      exact ⟨k + 1, b, by simp [sendAll, hk], hb⟩

end Sender

/-! ## The receiver -/

section Receiver

variable (decode : σ → Except ε (Option μ × σ)) (buffer : σ → List β) (feed : σ → List β → σ)

/-- Run the decoder until it returns no message, at most `fuel` times. -/
def drain : Nat → σ → Except ε (List μ × σ)
  | 0, s => .ok ([], s)
  | fuel + 1, s => decode s >>= fun
    | (none, s) => .ok ([], s)
    | (some m, s) => drain fuel s >>= fun (ms, s) => .ok (m :: ms, s)

/-- A chunk arrives: it is appended to the buffer and the decoder drained.
A decoder that takes at least one byte for each message it returns reaches
its `None` within one round more than the buffer has bytes. -/
def receive (s : σ) (chunk : List β) : Except ε (List μ × σ) :=
  drain decode ((buffer s).length + chunk.length + 1) (feed s chunk)

/-- The chunks arrive one after the other. -/
def receiveAll : σ → List (List β) → Except ε (List μ × σ)
  | s, [] => .ok ([], s)
  | s, c :: cs =>
    receive decode buffer feed s c >>= fun (ms, s) =>
      receiveAll s cs >>= fun (ms', s) => .ok (ms ++ ms', s)

theorem drain_none {s s' : σ} (fuel : Nat) (h : decode s = .ok (none, s')) :
    drain decode (fuel + 1) s = .ok ([], s') := by
  rw [drain, h, ok_bind]

theorem drain_some {s s' s'' : σ} {m : μ} {ms : List μ} {fuel : Nat}
    (h : decode s = .ok (some m, s')) (hrest : drain decode fuel s' = .ok (ms, s'')) :
    drain decode (fuel + 1) s = .ok (m :: ms, s'') := by
  rw [drain, h, ok_bind]
  dsimp only
  rw [hrest, ok_bind]

theorem receiveAll_cons {s s' s'' : σ} {c : List β} {cs : List (List β)} {ms ms' : List μ}
    (h : receive decode buffer feed s c = .ok (ms, s'))
    (hrest : receiveAll decode buffer feed s' cs = .ok (ms', s'')) :
    receiveAll decode buffer feed s (c :: cs) = .ok (ms ++ ms', s'') := by
  rw [receiveAll, h, ok_bind]
  dsimp only
  rw [hrest, ok_bind]

end Receiver

/-! ## Decoders that invert the sender -/

/-- The decoder inverts the sender on the messages `ok` allows. It takes a
whole frame at the head of its buffer, leaving the rest and moving in step
with the sender. It returns no message and changes nothing while the buffer
holds only part of a frame, or nothing at all. Appending a chunk keeps the
two sides in step. -/
structure Inverts (send : τ → α → List β × τ) (decode : σ → Except ε (Option μ × σ))
    (msgOf : α → μ) (buffer : σ → List β) (feed : σ → List β → σ) (Sync : τ → σ → Prop)
    (ok : α → Prop) : Prop where
  frame_ne_nil : ∀ t s a, Sync t s → ok a → (send t a).1 ≠ []
  decodes : ∀ t s a rest, Sync t s → ok a → buffer s = (send t a).1 ++ rest →
    ∃ s', decode s = .ok (some (msgOf a), s') ∧ Sync (send t a).2 s' ∧ buffer s' = rest
  waits : ∀ t s a, Sync t s → ok a → buffer s <+: (send t a).1 → buffer s ≠ (send t a).1 →
    decode s = .ok (none, s)
  waits_empty : ∀ t s, Sync t s → buffer s = [] → decode s = .ok (none, s)
  buffer_feed : ∀ s c, buffer (feed s c) = buffer s ++ c
  sync_feed : ∀ t s c, Sync t s → Sync t (feed s c)

namespace Inverts

variable {send : τ → α → List β × τ} {decode : σ → Except ε (Option μ × σ)} {msgOf : α → μ}
  {buffer : σ → List β} {feed : σ → List β → σ} {Sync : τ → σ → Prop} {ok : α → Prop}
  (h : Inverts send decode msgOf buffer feed Sync ok)
include h

/-- With its buffer holding whole frames and part of the next one, the
decoder returns the messages of the whole frames and keeps the part. -/
theorem drain_sendAll :
    ∀ (qs as : List α) (t : τ) (s : σ) (b : List β) (fuel : Nat),
      (∀ a ∈ qs ++ as, ok a) → Sync t s → buffer s = (sendAll send t qs).1 ++ b →
      Pending send (sendAll send t qs).2 as b → (sendAll send t qs).1.length < fuel →
      ∃ s', drain decode fuel s = .ok (qs.map msgOf, s') ∧
        Sync (sendAll send t qs).2 s' ∧ buffer s' = b := by
  intro qs
  induction qs with
  | nil =>
    intro as t s b fuel hok hs hb hpend hfuel
    obtain ⟨fuel, rfl⟩ : ∃ f, fuel = f + 1 := ⟨fuel - 1, by omega⟩
    simp only [sendAll, List.nil_append] at hb hpend
    -- the decoder finds no whole frame
    have hnone : decode s = .ok (none, s) := by
      cases as with
      | nil => exact h.waits_empty t s hs (hb.trans hpend)
      | cons a as =>
        rw [← hb] at hpend
        exact h.waits t s a hs (hok a List.mem_cons_self) hpend.1 hpend.2
    exact ⟨s, drain_none decode fuel hnone, hs, hb⟩
  | cons q qs ih =>
    intro as t s b fuel hok hs hb hpend hfuel
    have hq : ok q := hok q List.mem_cons_self
    have hne := h.frame_ne_nil t s q hs hq
    obtain ⟨s1, hdec, hs1, hb1⟩ :=
      h.decodes t s q ((sendAll send (send t q).2 qs).1 ++ b) hs hq (by simpa [sendAll] using hb)
    obtain ⟨fuel, rfl⟩ : ∃ f, fuel = f + 1 := ⟨fuel - 1, by omega⟩
    -- the first frame takes at least one byte, so the rest fits in the fuel left
    have hfuel' : (sendAll send (send t q).2 qs).1.length < fuel := by
      have := List.length_pos_iff.mpr hne
      simp only [sendAll, List.length_append] at hfuel
      omega
    obtain ⟨s2, hdrain, hs2, hb2⟩ := ih as (send t q).2 s1 b fuel
      (fun a ha => hok a (List.mem_cons_of_mem q ha)) hs1 hb1 hpend hfuel'
    exact ⟨s2, drain_some decode hdec hdrain, hs2, hb2⟩

/-- However the stream after the buffer is cut into chunks, the receiver
returns the messages of the frames still to come and ends in step with the
sender, with an empty buffer. -/
theorem receiveAll_sendAll :
    ∀ (chunks : List (List β)) (as : List α) (t : τ) (s : σ),
      (∀ a ∈ as, ok a) → Sync t s → Pending send t as (buffer s) →
      buffer s ++ chunks.flatten = (sendAll send t as).1 →
      ∃ s', receiveAll decode buffer feed s chunks = .ok (as.map msgOf, s') ∧
        Sync (sendAll send t as).2 s' ∧ buffer s' = [] := by
  intro chunks
  induction chunks with
  | nil =>
    intro as t s hok hs hpend hwire
    simp only [List.flatten_nil, List.append_nil] at hwire
    cases as with
    | nil => exact ⟨s, rfl, hs, hpend⟩
    | cons a as =>
      -- a strict prefix of the first frame cannot be the whole stream
      exfalso
      have hframe : (send t a).1 <+: buffer s := by
        rw [hwire]
        exact List.prefix_append _ _
      exact hpend.2 (hpend.1.eq_of_length (le_antisymm hpend.1.length_le hframe.length_le))
  | cons c cs ih =>
    intro as t s hok hs hpend hwire
    -- the buffer with the chunk is whole frames and part of the next one
    have hw : buffer s ++ c <+: (sendAll send t as).1 := by
      rw [← hwire, List.flatten_cons, ← List.append_assoc]
      exact List.prefix_append _ _
    obtain ⟨k, b, hsplit, hpend'⟩ := exists_split_of_prefix send as t _ hw
    have hstream := sendAll_append send t (as.take k) (as.drop k)
    rw [List.take_append_drop] at hstream
    obtain ⟨s1, hrecv, hs1, hb1⟩ := h.drain_sendAll (as.take k) (as.drop k) t (feed s c) b
      ((buffer s).length + c.length + 1)
      (by rw [List.take_append_drop]; exact hok) (h.sync_feed t s c hs)
      (by rw [h.buffer_feed, hsplit])
      hpend' (by rw [← List.length_append, hsplit, List.length_append]; omega)
    -- what follows the part of the next frame is the rest of the stream
    have hrest : buffer s1 ++ cs.flatten = (sendAll send (sendAll send t (as.take k)).2 (as.drop k)).1 := by
      rw [hb1]
      have := hwire
      rw [List.flatten_cons, ← List.append_assoc, hsplit, hstream, List.append_assoc] at this
      exact List.append_cancel_left this
    obtain ⟨s2, hall, hs2, hb2⟩ := ih (as.drop k) _ s1
      (fun a ha => hok a (List.mem_of_mem_drop ha)) hs1 (hb1 ▸ hpend') hrest
    refine ⟨s2, ?_, ?_, hb2⟩
    · rw [receiveAll_cons decode buffer feed hrecv hall, ← List.map_append, List.take_append_drop]
    · rw [hstream]
      exact hs2

/-- From an empty buffer: every cut of the stream of frames for `as`
delivers exactly the messages of `as`, in order. -/
theorem receiveAll_of_empty {as : List α} {t : τ} {s : σ} {chunks : List (List β)}
    (hok : ∀ a ∈ as, ok a) (hs : Sync t s) (hb : buffer s = [])
    (hwire : chunks.flatten = (sendAll send t as).1) :
    ∃ s', receiveAll decode buffer feed s chunks = .ok (as.map msgOf, s') ∧
      Sync (sendAll send t as).2 s' ∧ buffer s' = [] := by
  have hpend : Pending send t as (buffer s) := by
    cases as with
    | nil => exact hb
    | cons a as =>
      rw [hb]
      exact ⟨List.nil_prefix, (h.frame_ne_nil t s a hs (hok a List.mem_cons_self)).symm⟩
  exact h.receiveAll_sendAll chunks as t s hok hs hpend (by rw [hb, hwire]; rfl)

end Inverts

end Framing
