import Akuma.Lib.Stream
import Akuma.Lib.RustStr

/-!
# The HTTP response of a fetch

`process_pack_streaming` of `userspace/scratch/src/stream.rs` reads the
response to a fetch from TLS in pieces of any size. It collects the header
until `find_headers_end` (of `libakuma-tls`) finds the blank line, parses it
(`parse_headers`), and hands the body to its processor, through the
`ChunkedState` decoder when the transfer is chunked.

`ChunkedState::process` is a `Decoding.Decoder` (`chunkedDecoder`), and it
extends over longer buffers for every state and every input
(`chunkedDecoder_extends`): however the body is cut, it gives the same bytes
and the same error as the whole body in one piece. A chunked body written as
RFC 9112 section 7.1 writes it (`chunkedBody`) decodes to its chunks' data,
however it is cut (`chunkedBody_decodes_however_cut`).

The read loop hands the processor the decoded body in pieces, none empty,
and stops at the last chunk: whatever the reads after it bring, a read error
included, the processor has seen exactly the decoded body
(`processPackStreaming_chunked`).
-/

namespace Akuma.Git

open Decoding RustStr

/-! ## Chunked transfer decoding -/

inductive ChunkParseState
  | expectingSize
  | readingData
  | expectingCrlf
  deriving DecidableEq, Repr

/-- `ChunkedState`: the bytes not yet decoded, what is left of the current
chunk, where the decoder stands, and whether the last chunk was seen. -/
structure ChunkedState where
  buffer : List Nat
  chunkRemaining : Nat
  state : ChunkParseState
  done : Bool
  deriving DecidableEq, Repr

/-- `ChunkedState::new`. -/
def ChunkedState.new : ChunkedState := ⟨[], 0, .expectingSize, false⟩

/-- `find_crlf_slice`: where the first `\r\n` starts. -/
def findCrlfSlice : List Nat → Option Nat
  | a :: b :: rest => if a = 13 ∧ b = 10 then some 0 else (findCrlfSlice (b :: rest)).map (· + 1)
  | _ => none

/-- The size line of a chunk, as `process` reads it: UTF-8, the part before
any `;` extension, trimmed, read as a hexadecimal `usize`. -/
def parseChunkSize (line : List Nat) : Except String Nat :=
  match utf8Decode line with
  | none => .error "invalid chunk size"
  | some text =>
    match fromStrRadix 16 64 (trim (text.takeWhile (· ≠ ';'))) with
    | some size => .ok size
    | none => .error "invalid chunk size hex"

/-- One round of the loop of `ChunkedState::process`. The loop runs while the
buffer holds bytes and the last chunk has not been seen. -/
def ChunkedState.step (s : ChunkedState) : Except String (Option (List Nat × ChunkedState)) :=
  if s.buffer = [] ∨ s.done = true then .ok none
  else
    match s.state with
    | .expectingSize =>
      match findCrlfSlice s.buffer with
      | none => .ok none
      | some crlfPos =>
        (parseChunkSize (s.buffer.take crlfPos)).map fun size =>
          let rest := s.buffer.drop (crlfPos + 2)
          if size = 0 then some ([], { s with chunkRemaining := size, buffer := rest, done := true })
          else some ([], { s with chunkRemaining := size, buffer := rest, state := .readingData })
    | .readingData =>
      let available := min s.chunkRemaining s.buffer.length
      let remaining := s.chunkRemaining - available
      .ok (some (s.buffer.take available, { s with
        buffer := s.buffer.drop available
        chunkRemaining := remaining
        state := if remaining = 0 then .expectingCrlf else .readingData }))
    | .expectingCrlf =>
      -- any two bytes are taken for the CRLF after the data
      if 2 ≤ s.buffer.length then .ok (some ([], { s with buffer := s.buffer.drop 2, state := .expectingSize }))
      else .ok none

/-- How far a state is from taking bytes: reading data comes before the CRLF
after it, and the size line before the data. -/
def ChunkParseState.rank : ChunkParseState → Nat
  | .expectingCrlf => 0
  | .readingData => 1
  | .expectingSize => 2

theorem findCrlfSlice_lt : ∀ {l : List Nat} {pos : Nat}, findCrlfSlice l = some pos → pos + 2 ≤ l.length
  | a :: b :: rest, pos, h => by
    rw [findCrlfSlice] at h
    split at h
    · cases h
      simp
    · obtain ⟨p, hp, rfl⟩ := Option.map_eq_some_iff.mp h
      have := findCrlfSlice_lt hp
      simp only [List.length_cons] at this ⊢
      omega
  | [], _, h => by cases h
  | [_], _, h => by cases h

theorem ChunkedState.step_lt {s s' : ChunkedState} {o : List Nat}
    (h : s.step = .ok (some (o, s'))) :
    3 * s'.buffer.length + s'.state.rank < 3 * s.buffer.length + s.state.rank := by
  unfold ChunkedState.step at h
  split at h
  · cases h
  rename_i hwait
  have hne : s.buffer ≠ [] := fun hb => hwait (.inl hb)
  have hpos := List.length_pos_iff.mpr hne
  split at h
  · -- the size line goes, with its CRLF
    rename_i hst
    split at h
    · cases h
    · rename_i crlfPos hcrlf
      have hlt := findCrlfSlice_lt hcrlf
      cases hsize : parseChunkSize (s.buffer.take crlfPos) with
      | error e => rw [hsize] at h; cases h
      | ok size =>
        rw [hsize] at h
        have h' := Except.ok.inj h
        dsimp only at h'
        split at h' <;> cases h' <;>
          simp only [List.length_drop, hst, ChunkParseState.rank] <;> omega
  · -- the data goes, or the state moves on to its CRLF
    rename_i hst
    cases h
    by_cases hrem : s.chunkRemaining - min s.chunkRemaining s.buffer.length = 0
    · simp only [List.length_drop, hst, hrem, if_true, ChunkParseState.rank]
      omega
    · simp only [List.length_drop, hst, hrem, if_false, ChunkParseState.rank]
      omega
  · rename_i hst
    split at h
    · cases h
      simp only [List.length_drop, hst, ChunkParseState.rank]
      omega
    · cases h

/-- The loop of `ChunkedState::process` as a decoder of bytes. -/
def chunkedDecoder : Decoder ChunkedState Nat Nat String where
  step := ChunkedState.step
  append s more := { s with buffer := s.buffer ++ more }
  measure s := 3 * s.buffer.length + s.state.rank
  step_lt := ChunkedState.step_lt
  append_nil s := by simp
  append_append s a b := by simp

/-- `ChunkedState::process`: the data appended to the buffer, then the loop;
the decoded bytes. -/
def ChunkedState.process (s : ChunkedState) (data : List Nat) : Except String (List Nat × ChunkedState) :=
  chunkedDecoder.feed s data

/-! ## Cutting the body

Every round of the loop does the same over a longer buffer, except one that
reads the data of a chunk going on past the buffer: over the longer buffer
it reads more of that data at once, and the two meet again after it. -/

@[simp] theorem chunkedDecoder_append (s : ChunkedState) (more : List Nat) :
    chunkedDecoder.append s more = { s with buffer := s.buffer ++ more } := rfl

@[simp] theorem chunkedDecoder_step (s : ChunkedState) : chunkedDecoder.step s = s.step := rfl

/-- `find_crlf_slice` finds the same CRLF in a longer buffer. -/
theorem findCrlfSlice_append (more : List Nat) :
    ∀ {l : List Nat} {pos : Nat}, findCrlfSlice l = some pos → findCrlfSlice (l ++ more) = some pos
  | a :: b :: rest, pos, h => by
    rw [findCrlfSlice] at h
    rw [List.cons_append, List.cons_append, findCrlfSlice]
    split at h
    · rw [if_pos ‹_›]
      exact h
    · rw [if_neg ‹_›]
      obtain ⟨p, hp, rfl⟩ := Option.map_eq_some_iff.mp h
      rw [← List.cons_append, findCrlfSlice_append more hp]
      rfl
  | [], _, h => by cases h
  | [_], _, h => by cases h

/-- A round that reads the size line, or the CRLF after the data, or data
that ends within the buffer, is the same round over a longer buffer. -/
theorem ChunkedState.step_append {s s' : ChunkedState} {o : List Nat} (more : List Nat)
    (h : s.step = .ok (some (o, s')))
    (hdata : s.state = .readingData → s.chunkRemaining ≤ s.buffer.length) :
    { s with buffer := s.buffer ++ more }.step = .ok (some (o, { s' with buffer := s'.buffer ++ more })) := by
  unfold ChunkedState.step at h ⊢
  split at h
  · cases h
  rename_i hwait
  have hne : s.buffer ≠ [] := fun hb => hwait (.inl hb)
  have hdone : ¬s.done = true := fun hd => hwait (.inr hd)
  rw [if_neg (by simp [hne, hdone])]
  dsimp only
  split at h
  · split at h
    · cases h
    · rename_i pos hpos
      have hlt := findCrlfSlice_lt hpos
      rw [findCrlfSlice_append more hpos]
      dsimp only
      rw [List.take_append_of_le_length (by omega)]
      cases hsize : parseChunkSize (s.buffer.take pos) with
      | error e => rw [hsize] at h; cases h
      | ok size =>
        rw [hsize] at h
        have h' := Except.ok.inj h
        dsimp only at h'
        rw [List.drop_append_of_le_length (by omega)]
        -- the last chunk, or the data of the next
        by_cases hzero : size = 0
        · rw [if_pos hzero] at h'
          cases h'
          simp [Except.map, hzero]
        · rw [if_neg hzero] at h'
          cases h'
          simp [Except.map, hzero]
  · rename_i hst
    have hle := hdata hst
    cases h
    dsimp only
    have hmin : min s.chunkRemaining (s.buffer ++ more).length = min s.chunkRemaining s.buffer.length := by
      simp only [List.length_append]
      omega
    rw [hmin, List.take_append_of_le_length (by omega), List.drop_append_of_le_length (by omega)]
  · split at h
    · rename_i hlen
      cases h
      dsimp only
      rw [if_pos (by simp only [List.length_append]; omega), List.drop_append_of_le_length hlen]
    · cases h

/-- A failing round fails the same way over a longer buffer: only the size
line can fail, and it is already whole. -/
theorem ChunkedState.step_append_error {s : ChunkedState} {e : String} (more : List Nat)
    (h : s.step = .error e) : { s with buffer := s.buffer ++ more }.step = .error e := by
  unfold ChunkedState.step at h ⊢
  split at h
  · cases h
  rename_i hwait
  have hne : s.buffer ≠ [] := fun hb => hwait (.inl hb)
  have hdone : ¬s.done = true := fun hd => hwait (.inr hd)
  rw [if_neg (by simp [hne, hdone])]
  dsimp only
  split at h
  · split at h
    · cases h
    · rename_i pos hpos
      have hlt := findCrlfSlice_lt hpos
      rw [findCrlfSlice_append more hpos]
      dsimp only
      rw [List.take_append_of_le_length (by omega)]
      cases hsize : parseChunkSize (s.buffer.take pos) with
      | error e' => rw [hsize] at h; exact h
      | ok size => rw [hsize] at h; cases h
  · cases h
  · split at h <;> cases h

/-- A round that gives output had bytes to work on and had not seen the last
chunk. -/
theorem ChunkedState.active_of_step {s s' : ChunkedState} {o : List Nat}
    (h : s.step = .ok (some (o, s'))) : s.buffer ≠ [] ∧ s.done = false := by
  unfold ChunkedState.step at h
  split at h
  · cases h
  · rename_i hwait
    exact ⟨fun hb => hwait (.inl hb), by simpa using fun hd => hwait (.inr hd)⟩

/-- Once the last chunk is seen, the loop waits. -/
theorem ChunkedState.step_of_done {s : ChunkedState} (hdone : s.done = true) : s.step = .ok none := by
  unfold ChunkedState.step
  rw [if_pos (.inr hdone)]

/-- A call once the last chunk is seen only keeps the bytes. -/
theorem ChunkedState.process_of_done (data : List Nat) {s : ChunkedState} (hdone : s.done = true) :
    s.process data = .ok ([], { s with buffer := s.buffer ++ data }) :=
  Decoder.drain_of_wait (d := chunkedDecoder) (ChunkedState.step_of_done hdone)

/-- The round that reads the size line: the data of a chunk comes next, or
the last chunk ends the body. -/
theorem ChunkedState.step_expectingSize {s : ChunkedState} {crlfPos size : Nat}
    (hst : s.state = .expectingSize) (hne : s.buffer ≠ []) (hdone : s.done = false)
    (hcrlf : findCrlfSlice s.buffer = some crlfPos) (hsize : parseChunkSize (s.buffer.take crlfPos) = .ok size) :
    s.step = .ok (some ([], if size = 0 then
        { s with chunkRemaining := size, buffer := s.buffer.drop (crlfPos + 2), done := true }
      else { s with chunkRemaining := size, buffer := s.buffer.drop (crlfPos + 2), state := .readingData })) := by
  unfold ChunkedState.step
  rw [if_neg (by simp [hne, hdone]), hst]
  dsimp only
  rw [hcrlf]
  dsimp only
  rw [hsize]
  by_cases hzero : size = 0 <;> simp [Except.map, hzero]

/-- The round that takes the CRLF after a chunk's data. -/
theorem ChunkedState.step_expectingCrlf {s : ChunkedState} (hst : s.state = .expectingCrlf)
    (hdone : s.done = false) (hlen : 2 ≤ s.buffer.length) :
    s.step = .ok (some ([], { s with buffer := s.buffer.drop 2, state := .expectingSize })) := by
  have hne : s.buffer ≠ [] := by
    intro hb
    rw [hb] at hlen
    cases hlen
  unfold ChunkedState.step
  rw [if_neg (by simp [hne, hdone]), hst]
  exact if_pos hlen

/-- The round that reads data: as much of the chunk as the buffer holds. -/
theorem ChunkedState.step_readingData {s : ChunkedState} (hst : s.state = .readingData)
    (hne : s.buffer ≠ []) (hdone : s.done = false) :
    s.step = .ok (some (s.buffer.take (min s.chunkRemaining s.buffer.length), { s with
      buffer := s.buffer.drop (min s.chunkRemaining s.buffer.length)
      chunkRemaining := s.chunkRemaining - min s.chunkRemaining s.buffer.length
      state := if s.chunkRemaining - min s.chunkRemaining s.buffer.length = 0 then .expectingCrlf
        else .readingData })) := by
  unfold ChunkedState.step
  rw [if_neg (by simp [hne, hdone]), hst]

/-- Data of a chunk that goes on past the buffer: over a longer buffer the
round reads more of it at once, and the two runs meet after the next round
of the shorter one. -/
theorem ChunkedState.drain_append_overrun {s s' : ChunkedState} {o : List Nat} (more : List Nat)
    (h : s.step = .ok (some (o, s'))) (hst : s.state = .readingData)
    (hlt : s.buffer.length < s.chunkRemaining) :
    chunkedDecoder.drain { s with buffer := s.buffer ++ more } =
      Decoder.prepend o (chunkedDecoder.drain { s' with buffer := s'.buffer ++ more }) := by
  obtain ⟨hne, hdone⟩ := ChunkedState.active_of_step h
  have hstep := ChunkedState.step_readingData hst hne hdone
  rw [hstep] at h
  cases h
  have hmin : min s.chunkRemaining s.buffer.length = s.buffer.length := by omega
  have hrem : ¬s.chunkRemaining - s.buffer.length = 0 := by omega
  simp only [hmin, List.take_length, List.drop_length, List.nil_append, hrem, if_false]
  cases more with
  | nil =>
    have hs : ({ s with buffer := s.buffer ++ [] } : ChunkedState) = s := by simp
    rw [hs, Decoder.drain_of_emit (d := chunkedDecoder) hstep]
    simp only [hmin, List.take_length, List.drop_length, hrem, if_false]
  | cons b more =>
    -- both read the rest of the chunk that the new bytes hold, and meet
    have hlong := ChunkedState.step_readingData (s := { s with buffer := s.buffer ++ b :: more }) hst
      (by simp) hdone
    have hshort := ChunkedState.step_readingData (s := { s with
        buffer := b :: more
        chunkRemaining := s.chunkRemaining - s.buffer.length
        state := .readingData }) rfl (by simp) hdone
    rw [Decoder.drain_of_emit (d := chunkedDecoder) hlong, Decoder.drain_of_emit (d := chunkedDecoder) hshort,
      Decoder.prepend_prepend]
    dsimp only
    have hk : min s.chunkRemaining (s.buffer ++ b :: more).length =
        s.buffer.length + min (s.chunkRemaining - s.buffer.length) (b :: more).length := by
      simp only [List.length_append]
      omega
    rw [hk, List.take_append, List.drop_append, List.take_of_length_le (by omega),
      List.drop_of_length_le (by omega), Nat.add_sub_cancel_left, List.nil_append, Nat.sub_add_eq]

/-- `ChunkedState::process` extends over longer buffers, from every state. -/
theorem chunkedDecoder_extends : chunkedDecoder.Extends fun _ _ => True where
  error := fun _ h => by
    rw [chunkedDecoder_append]
    exact Decoder.drain_of_error (ChunkedState.step_append_error _ h)
  emit := by
    intro more s o s' _ h
    rw [chunkedDecoder_append, chunkedDecoder_append]
    by_cases hover : s.state = .readingData ∧ s.buffer.length < s.chunkRemaining
    · exact ChunkedState.drain_append_overrun more h hover.1 hover.2
    · exact Decoder.drain_of_emit (d := chunkedDecoder)
        (ChunkedState.step_append more h fun hst => Nat.le_of_not_lt fun hlt => hover ⟨hst, hlt⟩)
  keep := fun _ _ => trivial

/-- However the body is cut, from a state that waits, the calls of
`ChunkedState::process` give what one call with all of it gives: the same
bytes, or the same error. -/
theorem ChunkedState.feedAll_eq_process (cuts : List (List Nat)) {s : ChunkedState}
    (hs : s.step = .ok none) : chunkedDecoder.feedAll s cuts = s.process cuts.flatten :=
  Decoder.feedAll_eq_feed chunkedDecoder_extends (fun _ => trivial) cuts hs trivial

/-! ## A chunked body read back -/

/-- A size line as RFC 9112 section 7.1 writes it: the size in lowercase
hexadecimal, then CRLF. -/
def chunkSizeLine (n : Nat) : List Nat := (Nat.toDigits 16 n).map Char.toNat ++ [13, 10]

/-- A chunk: its size line, its data, CRLF. -/
def encodeChunk (data : List Nat) : List Nat := chunkSizeLine data.length ++ data ++ [13, 10]

/-- A chunked body: each chunk, then the last chunk `0` CRLF. A trailer
section and the final CRLF follow it. -/
def chunkedBody (chunks : List (List Nat)) : List Nat :=
  (chunks.map encodeChunk).flatten ++ chunkSizeLine 0

/-- The characters of a hexadecimal size are ASCII, and none is a CRLF byte,
a `;` or whitespace. -/
theorem hexDigit_props {c : Char} {n : Nat} (hc : c ∈ Nat.toDigits 16 n) :
    c.toNat < 0x80 ∧ c.toNat ≠ 13 ∧ c ≠ ';' ∧ isWhitespace c = false := by
  obtain ⟨d, hd, rfl⟩ := mem_toDigits (by decide) hc
  have key : ∀ d < 16, (Nat.digitChar d).toNat < 0x80 ∧ (Nat.digitChar d).toNat ≠ 13 ∧
      Nat.digitChar d ≠ ';' ∧ isWhitespace (Nat.digitChar d) = false := by decide
  exact key d hd

/-- The size a size line writes reads back. -/
theorem parseChunkSize_toDigits {n : Nat} (hn : n < 2 ^ 64) :
    parseChunkSize ((Nat.toDigits 16 n).map Char.toNat) = .ok n := by
  have hascii : ∀ b ∈ (Nat.toDigits 16 n).map Char.toNat, b < 0x80 := by
    intro b hb
    obtain ⟨c, hc, rfl⟩ := List.mem_map.mp hb
    exact (hexDigit_props hc).1
  have hchars : ((Nat.toDigits 16 n).map Char.toNat).map Char.ofNat = Nat.toDigits 16 n := by
    rw [List.map_map]
    conv => rhs; rw [← List.map_id (Nat.toDigits 16 n)]
    exact List.map_congr_left fun c _ => Char.ofNat_toNat c
  have htake : (Nat.toDigits 16 n).takeWhile (· ≠ ';') = Nat.toDigits 16 n :=
    List.takeWhile_eq_self_iff.mpr fun c hc => by simpa using (hexDigit_props hc).2.2.1
  rw [parseChunkSize, utf8Decode_ascii hascii, hchars]
  dsimp only
  rw [htake, trim_of_forall fun c hc => (hexDigit_props hc).2.2.2, fromStrRadix_toDigits (by decide) (by decide) hn]

/-- `find_crlf_slice` stops at the CRLF after a line with no `\r`. -/
theorem findCrlfSlice_line (rest : List Nat) :
    ∀ (line : List Nat), (∀ b ∈ line, b ≠ 13) → findCrlfSlice (line ++ 13 :: 10 :: rest) = some line.length
  | [], _ => by simp [findCrlfSlice]
  | a :: line, h => by
    have ha : a ≠ 13 := h a List.mem_cons_self
    have hrest := findCrlfSlice_line rest line fun b hb => h b (List.mem_cons_of_mem a hb)
    cases line with
    | nil => simp [findCrlfSlice, ha]
    | cons c line =>
      rw [List.cons_append, List.cons_append, findCrlfSlice, if_neg (fun hc => ha hc.1)]
      rw [← List.cons_append, hrest]
      rfl

/-- The size line of a chunk read in front of anything. -/
theorem findCrlfSlice_chunkSizeLine (n : Nat) (rest : List Nat) :
    findCrlfSlice (chunkSizeLine n ++ rest) = some (Nat.toDigits 16 n).length := by
  rw [chunkSizeLine, List.append_assoc, List.cons_append, List.singleton_append,
    findCrlfSlice_line rest _ fun b hb => ?_, List.length_map]
  obtain ⟨c, hc, rfl⟩ := List.mem_map.mp hb
  exact (hexDigit_props hc).2.1

/-- One chunk at the head of the buffer: three rounds give its data and take
it off, size line and CRLFs included. -/
theorem ChunkedState.drain_encodeChunk {s : ChunkedState} {data rest : List Nat}
    (hst : s.state = .expectingSize) (hdone : s.done = false) (hne : data ≠ [])
    (hlen : data.length < 2 ^ 64) (hbuf : s.buffer = encodeChunk data ++ rest) :
    chunkedDecoder.drain s =
      Decoder.prepend data (chunkedDecoder.drain { s with buffer := rest, chunkRemaining := 0 }) := by
  have hbuf' : s.buffer = (Nat.toDigits 16 data.length).map Char.toNat ++ 13 :: 10 :: (data ++ 13 :: 10 :: rest) := by
    simp [hbuf, encodeChunk, chunkSizeLine]
  have hcrlf : findCrlfSlice s.buffer = some (Nat.toDigits 16 data.length).length := by
    rw [hbuf', ← List.length_map (f := Char.toNat)]
    exact findCrlfSlice_line _ _ fun b hb => by
      obtain ⟨c, hc, rfl⟩ := List.mem_map.mp hb
      exact (hexDigit_props hc).2.1
  have hsize : parseChunkSize (s.buffer.take (Nat.toDigits 16 data.length).length) = .ok data.length := by
    rw [hbuf', ← List.length_map (f := Char.toNat), List.take_left]
    exact parseChunkSize_toDigits hlen
  -- the size line: the data comes next
  have h1 := ChunkedState.step_expectingSize hst (by simp [hbuf']) hdone hcrlf hsize
  have hdrop : ∀ l x : List Nat, (l ++ 13 :: 10 :: x).drop (l.length + 2) = x := by
    intro l x
    rw [List.drop_append, List.drop_of_length_le (by omega), Nat.add_sub_cancel_left]
    rfl
  rw [if_neg (by simpa using hne), hbuf', ← List.length_map (f := Char.toNat), hdrop] at h1
  rw [Decoder.drain_of_emit (d := chunkedDecoder) h1]
  -- the data, all in the buffer
  have h2 := ChunkedState.step_readingData (s := { s with
      chunkRemaining := data.length
      buffer := data ++ 13 :: 10 :: rest
      state := .readingData }) rfl (by simp) hdone
  have hmin : min data.length (data ++ 13 :: 10 :: rest).length = data.length := by simp
  simp only [hmin, List.take_left', List.drop_left', Nat.sub_self, if_true] at h2
  rw [Decoder.drain_of_emit (d := chunkedDecoder) h2]
  -- the CRLF after it
  have h3 := ChunkedState.step_expectingCrlf (s := { s with
      chunkRemaining := 0
      buffer := 13 :: 10 :: rest
      state := .expectingCrlf }) rfl hdone (by simp)
  rw [Decoder.drain_of_emit (d := chunkedDecoder) h3, Decoder.prepend_prepend, Decoder.prepend_prepend]
  simp [hst]

/-- The last chunk: the decoder is done, and leaves what follows it. -/
theorem ChunkedState.drain_lastChunk {s : ChunkedState} {rest : List Nat}
    (hst : s.state = .expectingSize) (hdone : s.done = false) (hbuf : s.buffer = chunkSizeLine 0 ++ rest) :
    chunkedDecoder.drain s = .ok ([], { s with buffer := rest, chunkRemaining := 0, done := true }) := by
  have hbuf' : s.buffer = [0x30] ++ 13 :: 10 :: rest := by simp [hbuf, chunkSizeLine]
  have hcrlf : findCrlfSlice s.buffer = some 1 := by
    rw [hbuf']
    exact findCrlfSlice_line rest [0x30] (by decide)
  have hsize : parseChunkSize (s.buffer.take 1) = .ok 0 := by
    rw [hbuf']
    rfl
  have h1 := ChunkedState.step_expectingSize hst (by simp [hbuf']) hdone hcrlf hsize
  rw [if_pos rfl, hbuf'] at h1
  -- done: the loop stops
  rw [Decoder.drain_of_emit (d := chunkedDecoder) h1, Decoder.drain_of_wait (d := chunkedDecoder)
    (ChunkedState.step_of_done rfl)]
  rfl

/-- A chunked body at the head of the buffer decodes to its chunks' data, and
the decoder is done with what follows it. -/
theorem ChunkedState.drain_chunkedBody :
    ∀ (chunks : List (List Nat)) {s : ChunkedState} {rest : List Nat},
      (∀ c ∈ chunks, c ≠ [] ∧ c.length < 2 ^ 64) → s.state = .expectingSize → s.done = false →
      s.buffer = chunkedBody chunks ++ rest →
      chunkedDecoder.drain s = .ok (chunks.flatten, { s with buffer := rest, chunkRemaining := 0, done := true })
  | [], s, rest, _, hst, hdone, hbuf => ChunkedState.drain_lastChunk hst hdone (by simpa [chunkedBody] using hbuf)
  | c :: chunks, s, rest, hchunks, hst, hdone, hbuf => by
    obtain ⟨hne, hlen⟩ := hchunks c List.mem_cons_self
    -- the first chunk, then the body of the others
    rw [@ChunkedState.drain_encodeChunk s c (chunkedBody chunks ++ rest) hst hdone hne hlen
        (by simp [hbuf, chunkedBody]),
      @ChunkedState.drain_chunkedBody chunks { s with buffer := chunkedBody chunks ++ rest, chunkRemaining := 0 }
        rest (fun c' hc' => hchunks c' (List.mem_cons_of_mem c hc')) hst hdone rfl]
    rfl

/-- A chunked body, followed by anything and cut anywhere, decodes through
`ChunkedState::process` from a new decoder to its chunks' data: each chunk
not empty and of a size a `usize` holds. The decoder ends done, holding what
followed the last chunk. -/
theorem chunkedBody_decodes_however_cut (chunks : List (List Nat))
    (hchunks : ∀ c ∈ chunks, c ≠ [] ∧ c.length < 2 ^ 64) (rest : List Nat) (cuts : List (List Nat))
    (hcuts : cuts.flatten = chunkedBody chunks ++ rest) :
    chunkedDecoder.feedAll ChunkedState.new cuts = .ok (chunks.flatten, ⟨rest, 0, .expectingSize, true⟩) := by
  rw [ChunkedState.feedAll_eq_process cuts rfl, hcuts, ChunkedState.process, Decoder.feed]
  exact ChunkedState.drain_chunkedBody chunks hchunks rfl rfl (by simp [ChunkedState.new])

/-- The chunk `ab` and the last chunk, with a final CRLF, read in three
pieces cut inside the size line and inside the data. -/
theorem chunkedBody_decodes_however_cut_three_reads :
    (∀ c ∈ [[0x61, 0x62]], c ≠ [] ∧ c.length < 2 ^ 64) ∧
      [[0x32, 13], [10, 0x61], [0x62, 13, 10, 0x30, 13, 10, 13, 10]].flatten = chunkedBody [[0x61, 0x62]] ++ [13, 10] ∧
      chunkedDecoder.feedAll ChunkedState.new [[0x32, 13], [10, 0x61], [0x62, 13, 10, 0x30, 13, 10, 13, 10]] =
        .ok ([0x61, 0x62], ⟨[13, 10], 0, .expectingSize, true⟩) :=
  ⟨by decide, rfl, chunkedBody_decodes_however_cut [[0x61, 0x62]] (by decide) [13, 10] _ rfl⟩

/-! ## The header -/

/-- `find_headers_end` of `libakuma-tls`: the position after the first
`\r\n\r\n`. -/
def findHeadersEnd : List Nat → Option Nat
  | [] => none
  | a :: rest => if (a :: rest).take 4 = [13, 10, 13, 10] then some 4 else (findHeadersEnd rest).map (· + 1)

/-- `parse_status_line`: the status code, the second word of the line. -/
def parseStatusLine (line : List Char) : Except String Nat :=
  match splitWhitespace line with
  | [] => .error "missing HTTP version"
  | [_] => .error "missing status code"
  | _ :: status :: _ =>
    match fromStrRadix 10 16 status with
    | some code => .ok code
    | none => .error "invalid status code"

/-- A header line of `parse_headers`: its name and value, each trimmed, when
the line has a colon. -/
def headerOf (line : List Char) : Option (List Char × List Char) :=
  if ':' ∈ line then some (trim (line.takeWhile (· ≠ ':')), trim ((line.dropWhile (· ≠ ':')).drop 1))
  else none

/-- `parse_headers`: the status code, the headers, and whether a
`Transfer-Encoding` header names `chunked`. -/
def parseHeaders (data : List Nat) : Except String (Nat × List (List Char × List Char) × Bool) :=
  match utf8Decode data with
  | none => .error "invalid headers"
  | some text =>
    match lines text with
    | [] => .error "missing status line"
    | statusLine :: rest =>
      (parseStatusLine statusLine).map fun status =>
        let headers := (rest.filter (· ≠ [])).filterMap headerOf
        (status, headers, headers.any fun h =>
          eqIgnoreAsciiCase h.1 "Transfer-Encoding".toList && containsText "chunked".toList h.2)

/-- The `Content-Length` of a response that is not chunked: the value of the
last such header, or nothing if that one does not parse. -/
def contentLengthOf (headers : List (List Char × List Char)) : Option Nat :=
  headers.foldl (fun length h =>
    if eqIgnoreAsciiCase h.1 "Content-Length".toList then fromStrRadix 10 64 (trim h.2) else length) none

/-- `find_headers_end` finds the same blank line in a longer buffer. -/
theorem findHeadersEnd_bounds : ∀ {l : List Nat} {pos : Nat}, findHeadersEnd l = some pos → 4 ≤ pos ∧ pos ≤ l.length
  | [], _, h => by cases h
  | a :: rest, pos, h => by
    rw [findHeadersEnd] at h
    split at h
    · rename_i hcrlf
      cases h
      have hlen := congrArg List.length hcrlf
      simp only [List.length_take, List.length_cons] at hlen
      simp only [List.length_cons]
      omega
    · obtain ⟨p, hp, rfl⟩ := Option.map_eq_some_iff.mp h
      have := findHeadersEnd_bounds hp
      simp only [List.length_cons]
      omega

theorem findHeadersEnd_append (more : List Nat) :
    ∀ {l : List Nat} {pos : Nat}, findHeadersEnd l = some pos → findHeadersEnd (l ++ more) = some pos
  | [], _, h => by cases h
  | a :: rest, pos, h => by
    have hbounds := findHeadersEnd_bounds h
    rw [findHeadersEnd] at h
    rw [List.cons_append, findHeadersEnd]
    split at h
    · rename_i hcrlf
      cases h
      have hlen : 4 ≤ (a :: rest).length := hbounds.2
      rw [← List.cons_append, List.take_append_of_le_length hlen, if_pos hcrlf]
    · rename_i hcrlf
      obtain ⟨p, hp, rfl⟩ := Option.map_eq_some_iff.mp h
      -- the blank line is further on, so the first four bytes are the same
      have hlen : 4 ≤ (a :: rest).length := by
        have := findHeadersEnd_bounds hp
        simp only [List.length_cons]
        omega
      rw [← List.cons_append, List.take_append_of_le_length hlen, if_neg hcrlf, findHeadersEnd_append more hp]
      rfl

/-- A prefix of a header that ends at its first blank line has no blank
line yet. -/
theorem findHeadersEnd_eq_none_of_short {header pre rest : List Nat} (hend : findHeadersEnd header = some header.length)
    (hpre : pre ++ rest = header) (hlt : pre.length < header.length) : findHeadersEnd pre = none := by
  cases hfind : findHeadersEnd pre with
  | none => rfl
  | some pos =>
    have hle := (findHeadersEnd_bounds hfind).2
    have hsame := findHeadersEnd_append rest hfind
    rw [hpre, hend] at hsame
    cases hsame
    omega

/-! ## Reading the response -/

/-- What `process_pack_streaming` keeps from one read to the next, with the
state of its processor. -/
structure StreamState (π : Type) where
  headerBuf : List Nat
  headersParsed : Bool
  isChunked : Bool
  contentLength : Option Nat
  chunkState : ChunkedState
  totalBytes : Nat
  processor : π

section Receive

variable {π : Type} (processor : π → List Nat → Except String (Bool × π))

/-- Body bytes handed on: through the chunked decoder when the transfer is
chunked, to the processor when there are any. `false` when the processor
asks to stop. -/
def StreamState.deliver (st : StreamState π) (data : List Nat) : Except String (Bool × StreamState π) :=
  if st.isChunked then
    (st.chunkState.process data).bind fun r =>
      if r.1 = [] then .ok (true, { st with chunkState := r.2 })
      else (processor st.processor r.1).map fun q =>
        (q.1, { st with chunkState := r.2, totalBytes := st.totalBytes + r.1.length, processor := q.2 })
  else
    (processor st.processor data).map fun q =>
      (q.1, { st with totalBytes := st.totalBytes + data.length, processor := q.2 })

/-- A read that fails ends the download: an error unless what came is whole. -/
def StreamState.readError (st : StreamState π) : Except String π :=
  if st.totalBytes = 0 then .error "TLS read error before receiving data"
  else if st.isChunked = true ∧ st.chunkState.done = false then
    .error "TLS connection lost during chunked transfer"
  else
    match st.contentLength with
    | some expected =>
      if st.totalBytes < expected then .error "TLS connection lost, download incomplete" else .ok st.processor
    | none => .ok st.processor

/-- The read loop of `process_pack_streaming`, over the results of the reads
in turn: bytes, `some []` for a read of `0` bytes, `none` for a read that
fails. A list that runs out ends the stream as a read of `0` bytes does. -/
def receiveLoop : StreamState π → List (Option (List Nat)) → Except String π
  | st, [] => .ok st.processor
  | st, none :: _ => st.readError
  | st, some [] :: _ => .ok st.processor
  | st, some (b :: bs) :: reads =>
    if st.headersParsed then
      (st.deliver processor (b :: bs)).bind fun r =>
        if r.1 = false then .ok r.2.processor
        -- the chunked transfer is complete
        else if r.2.isChunked = true ∧ r.2.chunkState.done = true then .ok r.2.processor
        else receiveLoop r.2 reads
    else
      let headerBuf := st.headerBuf ++ b :: bs
      match findHeadersEnd headerBuf with
      | none => receiveLoop { st with headerBuf := headerBuf } reads
      | some hend =>
        (parseHeaders (headerBuf.take hend)).bind fun parsed =>
          if parsed.1 ≠ 200 then .error ("status " ++ toString parsed.1)
          else
            let st := { st with
              headerBuf := headerBuf
              isChunked := parsed.2.2
              contentLength := if parsed.2.2 then none else contentLengthOf parsed.2.1
              headersParsed := true }
            -- the body bytes that came with the header
            if headerBuf.drop hend = [] then receiveLoop st reads
            else
              (st.deliver processor (headerBuf.drop hend)).bind fun r =>
                if r.1 = false then .ok r.2.processor else receiveLoop r.2 reads

/-- `process_pack_streaming` from the response on: the processor's state
after the body. -/
def processPackStreaming (init : π) (reads : List (Option (List Nat))) : Except String π :=
  receiveLoop processor ⟨[], false, false, none, .new, 0, init⟩ reads

/-! ## The phases of the read loop -/

/-- The processor called on pieces in turn, while it asks to go on. -/
def processAll (p : π) : List (List Nat) → Except String π
  | [] => .ok p
  | x :: xs => (processor p x).bind fun q => if q.1 = false then .ok q.2 else processAll q.2 xs

/-- Body bytes handed on, and the loop continued by `k`: the processor sees
the decoded bytes, when there are any, before the pieces `k` hands it. -/
theorem StreamState.deliver_bind {st : StreamState π} {x o : List Nat} {c : ChunkedState}
    (hchunked : st.isChunked = true) (hproc : st.chunkState.process x = .ok (o, c))
    {rest : List (List Nat)} {k : StreamState π → Except String π}
    (hk : ∀ st' : StreamState π, st'.chunkState = c → st'.headersParsed = st.headersParsed →
      st'.isChunked = true → st'.contentLength = st.contentLength → (o ≠ [] → 0 < st'.totalBytes) →
      k st' = processAll processor st'.processor rest) :
    ((st.deliver processor x).bind fun r => if r.1 = false then .ok r.2.processor else k r.2) =
      processAll processor st.processor (if o = [] then rest else o :: rest) := by
  rw [StreamState.deliver, if_pos hchunked, hproc]
  by_cases ho : o = []
  · simp only [Except.bind, ho, if_true, Bool.true_eq_false, if_false]
    exact hk _ rfl rfl hchunked rfl fun h => absurd ho h
  · simp only [Except.bind, ho, if_false, processAll]
    cases hcall : processor st.processor o with
    | error e => rfl
    | ok q =>
      simp only [Except.map]
      by_cases hq : q.1 = false
      · simp [hq]
      · simp only [hq]
        exact hk _ rfl rfl hchunked rfl fun _ => by
          have := List.length_pos_iff.mpr ho
          dsimp only
          omega

/-- Once the last chunk is in, the loop ends with what the processor holds,
whatever the reads bring: more bytes, the end of the stream, or an error,
since bytes were received and a chunked transfer has no length to reach. -/
theorem receiveLoop_done {st : StreamState π} (hparsed : st.headersParsed = true)
    (hchunked : st.isChunked = true) (hdone : st.chunkState.done = true) (hlength : st.contentLength = none)
    (hbytes : 0 < st.totalBytes) : ∀ reads, receiveLoop processor st reads = .ok st.processor
  | [] => rfl
  | none :: _ => by
    rw [receiveLoop, StreamState.readError, if_neg (by omega), if_neg (by simp [hdone]), hlength]
  | some [] :: _ => rfl
  | some (b :: bs) :: reads => by
    -- the decoder takes the bytes and gives nothing, and the loop sees it done
    rw [receiveLoop, if_pos hparsed, StreamState.deliver, if_pos hchunked,
      ChunkedState.process_of_done (b :: bs) hdone]
    simp [Except.bind, hchunked, hdone]

/-- The chunked decoder once done takes no more: every call waits. -/
theorem ChunkedState.feedAll_of_done (cuts : List (List Nat)) {s : ChunkedState} (hdone : s.done = true) :
    chunkedDecoder.feedAll s cuts = .ok ([], { s with buffer := s.buffer ++ cuts.flatten }) := by
  rw [ChunkedState.feedAll_eq_process cuts (ChunkedState.step_of_done hdone),
    ChunkedState.process_of_done _ hdone]

theorem flatten_ite_cons (o : List Nat) (pieces : List (List Nat)) :
    (if o = [] then pieces else o :: pieces).flatten = o ++ pieces.flatten := by
  by_cases h : o = [] <;> simp [h]

theorem ne_nil_of_mem_ite_cons {o : List Nat} {pieces : List (List Nat)} (h : ∀ x ∈ pieces, x ≠ []) :
    ∀ x ∈ (if o = [] then pieces else o :: pieces), x ≠ [] := by
  by_cases ho : o = []
  · simpa [ho] using h
  · simp only [ho, if_false, List.mem_cons]
    rintro x (rfl | hx)
    · exact ho
    · exact h x hx

/-- The body reads of a chunked transfer, from a decoder that is not done to
one that is: the processor is handed the decoded bytes in pieces, none
empty, and the loop stops at the read that completes the body, before
anything after it. The pieces depend on the decoder and the reads only. -/
theorem receiveLoop_body (after : List (Option (List Nat))) :
    ∀ (cuts : List (List Nat)) {c₀ c : ChunkedState} {out : List Nat}, (∀ x ∈ cuts, x ≠ []) →
      c₀.done = false → chunkedDecoder.feedAll c₀ cuts = .ok (out, c) → c.done = true →
      ∃ pieces : List (List Nat), pieces.flatten = out ∧ (∀ x ∈ pieces, x ≠ []) ∧
        ∀ st : StreamState π, st.chunkState = c₀ → st.headersParsed = true → st.isChunked = true →
          receiveLoop processor st (cuts.map some ++ after) = processAll processor st.processor pieces
  | [], c₀, c, out, _, hnot, hfeed, hdone => by
    rw [Decoder.feedAll] at hfeed
    cases hfeed
    rw [hdone] at hnot
    cases hnot
  | x :: cuts, c₀, c, out, hcuts, hnot, hfeed, hdone => by
    obtain ⟨o, c₁, out', hfirst, hrest, rfl⟩ := Decoder.feedAll_cons_eq_ok hfeed
    have hx : x ≠ [] := hcuts x List.mem_cons_self
    -- the pieces after this read: none once the decoder is done
    obtain ⟨pieces, hflat, hne, hloop⟩ : ∃ pieces : List (List Nat), pieces.flatten = out' ∧
        (∀ x ∈ pieces, x ≠ []) ∧ ∀ st' : StreamState π, st'.chunkState = c₁ → st'.headersParsed = true →
          st'.isChunked = true →
          (if st'.isChunked = true ∧ st'.chunkState.done = true then .ok st'.processor
            else receiveLoop processor st' (cuts.map some ++ after)) = processAll processor st'.processor pieces := by
      cases hc₁ : c₁.done with
      | true =>
        rw [ChunkedState.feedAll_of_done cuts hc₁] at hrest
        cases hrest
        refine ⟨[], rfl, fun _ h => absurd h List.not_mem_nil, fun st' hst hp hch => ?_⟩
        rw [if_pos ⟨hch, hst ▸ hc₁⟩]
        rfl
      | false =>
        obtain ⟨pieces, hflat, hne, hloop⟩ :=
          receiveLoop_body after cuts (fun y hy => hcuts y (List.mem_cons_of_mem x hy)) hc₁ hrest hdone
        refine ⟨pieces, hflat, hne, fun st' hst hp hch => ?_⟩
        rw [if_neg (by simp [hst, hc₁]), hloop st' hst hp hch]
    refine ⟨if o = [] then pieces else o :: pieces, by rw [flatten_ite_cons, hflat], ne_nil_of_mem_ite_cons hne,
      fun st hst hp hch => ?_⟩
    obtain ⟨b, bs, rfl⟩ := List.exists_cons_of_ne_nil hx
    rw [List.map_cons, List.cons_append, receiveLoop, if_pos hp]
    exact StreamState.deliver_bind processor hch (by rw [hst]; exact hfirst)
      fun st' hst' hp' hch' _ _ => hloop st' hst' (hp'.trans hp) hch'

/-- The header reads: the bytes gather until the blank line, and the loop
goes on with the body bytes that came with the header, as a chunked
transfer with no length. -/
theorem receiveLoop_header {header : List Nat} {headers : List (List Char × List Char)}
    (hend : findHeadersEnd header = some header.length) (hparse : parseHeaders header = .ok (200, headers, true))
    (after : List (Option (List Nat))) :
    ∀ (reads : List (List Nat)) (st : StreamState π) {body : List Nat}, (∀ r ∈ reads, r ≠ []) →
      st.headersParsed = false → st.headerBuf.length < header.length →
      st.headerBuf ++ reads.flatten = header ++ body →
      ∃ (first : List Nat) (cuts : List (List Nat)), first ++ cuts.flatten = body ∧ (∀ x ∈ cuts, x ≠ []) ∧
        let st₁ : StreamState π := { st with
          headerBuf := header ++ first
          isChunked := true
          contentLength := none
          headersParsed := true }
        receiveLoop processor st (reads.map some ++ after) =
          if first = [] then receiveLoop processor st₁ (cuts.map some ++ after)
          else (st₁.deliver processor first).bind fun r =>
            if r.1 = false then .ok r.2.processor else receiveLoop processor r.2 (cuts.map some ++ after)
  | [], st, body, _, _, hlt, hbuf => by
    have := congrArg List.length hbuf
    simp only [List.flatten_nil, List.append_nil, List.length_append] at this
    omega
  | r :: reads, st, body, hreads, hparsed, hlt, hbuf => by
    obtain ⟨b, bs, rfl⟩ := List.exists_cons_of_ne_nil (hreads r List.mem_cons_self)
    have hreads' : ∀ r ∈ reads, r ≠ [] := fun r hr => hreads r (List.mem_cons_of_mem _ hr)
    rw [List.flatten_cons, ← List.append_assoc] at hbuf
    by_cases hshort : (st.headerBuf ++ b :: bs).length < header.length
    · -- no blank line yet: the bytes gather
      have hpre : st.headerBuf ++ b :: bs = header.take (st.headerBuf ++ b :: bs).length := by
        have h := congrArg (List.take (st.headerBuf ++ b :: bs).length) hbuf
        rwa [List.take_left' rfl, List.take_append_of_le_length (Nat.le_of_lt hshort)] at h
      have hnone : findHeadersEnd (st.headerBuf ++ b :: bs) = none :=
        @findHeadersEnd_eq_none_of_short header _ (header.drop (st.headerBuf ++ b :: bs).length) hend
          (by rw [hpre, List.length_take, Nat.min_eq_left (Nat.le_of_lt hshort), List.take_append_drop]) hshort
      obtain ⟨first, cuts, hsplit, hcuts, heq⟩ :=
        receiveLoop_header hend hparse after reads { st with headerBuf := st.headerBuf ++ b :: bs } hreads'
          hparsed hshort hbuf
      refine ⟨first, cuts, hsplit, hcuts, ?_⟩
      rw [List.map_cons, List.cons_append, receiveLoop, if_neg (by simp [hparsed])]
      dsimp only
      rw [hnone]
      exact heq
    · -- the blank line has come: the header is parsed, and what follows it is body
      have hle : header.length ≤ (st.headerBuf ++ b :: bs).length := Nat.le_of_not_lt hshort
      have hhead : (st.headerBuf ++ b :: bs).take header.length = header := by
        have h := congrArg (List.take header.length) hbuf
        rwa [List.take_append_of_le_length hle, List.take_left' rfl] at h
      obtain ⟨first, hfirst⟩ : ∃ first, st.headerBuf ++ b :: bs = header ++ first :=
        ⟨_, by rw [← hhead, List.take_append_drop]⟩
      rw [hfirst, List.append_assoc] at hbuf
      refine ⟨first, reads, List.append_cancel_left hbuf, hreads', ?_⟩
      rw [List.map_cons, List.cons_append, receiveLoop, if_neg (by simp [hparsed])]
      dsimp only
      rw [hfirst, findHeadersEnd_append first hend]
      dsimp only
      rw [List.take_left' rfl, hparse, List.drop_left' rfl]
      rfl

/-- A chunked response read in pieces of any size: a header that ends at
its first blank line, with status 200 and a chunked transfer, then a body
that decodes to bytes `out`, not empty, up to its last chunk. Whatever the
reads after the response bring, `process_pack_streaming` hands the processor
`out` in pieces, none empty, and ends with what the processor makes of them. -/
theorem processPackStreaming_chunked {header body out : List Nat} {headers : List (List Char × List Char)}
    {c : ChunkedState} (hend : findHeadersEnd header = some header.length)
    (hparse : parseHeaders header = .ok (200, headers, true)) (hbody : ChunkedState.new.process body = .ok (out, c))
    (hdone : c.done = true) (hout : out ≠ []) (init : π) (reads : List (List Nat)) (hreads : ∀ r ∈ reads, r ≠ [])
    (hcut : reads.flatten = header ++ body) (after : List (Option (List Nat))) :
    ∃ pieces : List (List Nat), pieces.flatten = out ∧ (∀ x ∈ pieces, x ≠ []) ∧
      processPackStreaming processor init (reads.map some ++ after) = processAll processor init pieces := by
  have hlen : 0 < header.length := by
    have := (findHeadersEnd_bounds hend).1
    omega
  obtain ⟨first, cuts, hsplit, hcuts, heq⟩ := receiveLoop_header processor hend hparse after reads
    ⟨[], false, false, none, .new, 0, init⟩ hreads rfl hlen (by simpa using hcut)
  rw [processPackStreaming, heq]
  dsimp only
  -- the body decodes as it would in one piece, however it came
  have hfeed : chunkedDecoder.feedAll ChunkedState.new (first :: cuts) = .ok (out, c) := by
    rw [ChunkedState.feedAll_eq_process _ rfl, List.flatten_cons, hsplit, hbody]
  obtain ⟨o, c₁, out', hone, hrest, rfl⟩ := Decoder.feedAll_cons_eq_ok hfeed
  by_cases hfirst : first = []
  · -- no body bytes came with the header
    subst hfirst
    rw [Decoder.feed_nil rfl] at hone
    cases hone
    obtain ⟨pieces, hflat, hne, hloop⟩ := receiveLoop_body processor after cuts hcuts rfl hrest hdone
    exact ⟨pieces, by simpa using hflat, hne, by rw [if_pos rfl]; exact hloop _ rfl rfl rfl⟩
  -- the body bytes that came with the header go first, with no check for the last chunk
  obtain ⟨pieces, hflat, hne, hloop⟩ : ∃ pieces : List (List Nat), pieces.flatten = out' ∧ (∀ x ∈ pieces, x ≠ []) ∧
      ∀ st' : StreamState π, st'.chunkState = c₁ → st'.headersParsed = true → st'.isChunked = true →
        st'.contentLength = none → (o ≠ [] → 0 < st'.totalBytes) →
        receiveLoop processor st' (cuts.map some ++ after) = processAll processor st'.processor pieces := by
    cases hc₁ : c₁.done with
    | true =>
      -- the whole body came with the header: the next read ends the loop
      rw [ChunkedState.feedAll_of_done cuts hc₁] at hrest
      cases hrest
      have ho : o ≠ [] := by simpa using hout
      exact ⟨[], rfl, fun _ h => absurd h List.not_mem_nil, fun st' hst hp hch hcl hbytes =>
        receiveLoop_done processor hp hch (hst ▸ hc₁) hcl (hbytes ho) _⟩
    | false =>
      obtain ⟨pieces, hflat, hne, hloop⟩ := receiveLoop_body processor after cuts hcuts hc₁ hrest hdone
      exact ⟨pieces, hflat, hne, fun st' hst hp hch _ _ => hloop st' hst hp hch⟩
  refine ⟨if o = [] then pieces else o :: pieces, by rw [flatten_ite_cons, hflat], ne_nil_of_mem_ite_cons hne, ?_⟩
  rw [if_neg hfirst]
  exact @StreamState.deliver_bind π processor ⟨header ++ first, true, true, none, .new, 0, init⟩ first o c₁ rfl hone
    pieces (fun st' => receiveLoop processor st' (cuts.map some ++ after)) hloop

end Receive

end Akuma.Git
