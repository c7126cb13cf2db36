import Akuma.Lib.Stream
import Akuma.Lib.RustStr
import Akuma.Git.Pack

/-!
# Pkt-lines and the sideband

`pktline.rs` frames the lines of the Git protocol: four lowercase
hexadecimal digits give the length of the line, themselves included
(`write_pkt_line`), and `0000` is a flush packet (`write_flush`).
`read_pkt_line` reads one line back.

With the `side-band` capabilities, the response to a fetch is a stream of
such lines, each with a band byte first: 1 carries pack data, 2 progress, 3
an error. `SidebandState::process` of `protocol.rs` takes them apart as they
arrive. Its loop is a `Decoding.Decoder` (`sidebandDecoder`) that extends over
longer buffers as long as what comes is made of packets, so however such a
stream is cut, the demultiplexer gives the data of band 1 in order, or the
message of the first error on band 3. Progress messages are only printed and
are left out.
-/

namespace Akuma.Git

open Decoding RustStr

/-! ## Pkt-lines -/

/-- `FLUSH_PKT`. -/
def flushPkt : List Nat := [0x30, 0x30, 0x30, 0x30]

/-- `DELIM_PKT`. -/
def delimPkt : List Nat := [0x30, 0x30, 0x30, 0x31]

/-- `RESPONSE_END_PKT`. -/
def responseEndPkt : List Nat := [0x30, 0x30, 0x30, 0x32]

/-- `HEX_CHARS`: `0123456789abcdef`. -/
def hexChars : List Nat :=
  [0x30, 0x31, 0x32, 0x33, 0x34, 0x35, 0x36, 0x37, 0x38, 0x39, 0x61, 0x62, 0x63, 0x64, 0x65, 0x66]

/-- `HEX_CHARS[i]`, at an index the source masks below 16. -/
def hexChar (i : Nat) : Nat := hexChars.getD i 0

/-- The four digits `write_pkt_line` pushes for a length: its low 16 bits,
most significant nibble first. -/
def pktLenHex (len : Nat) : List Nat :=
  [hexChar ((len >>> 12) &&& 0xf), hexChar ((len >>> 8) &&& 0xf), hexChar ((len >>> 4) &&& 0xf),
    hexChar (len &&& 0xf)]

/-- `write_pkt_line`: the length of the line with its four digits, then the
content. -/
def writePktLine (content : List Nat) : List Nat :=
  let len := content.length + 4
  pktLenHex len ++ content

/-- `write_flush`. -/
def writeFlush : List Nat := flushPkt

/-- A digit of `parse_hex_u16`, in either case. -/
def hexDigit (b : Nat) : Option Nat :=
  if 0x30 ≤ b ∧ b ≤ 0x39 then some (b - 0x30)
  else if 0x61 ≤ b ∧ b ≤ 0x66 then some (b - 0x61 + 10)
  else if 0x41 ≤ b ∧ b ≤ 0x46 then some (b - 0x41 + 10)
  else none

/-- `parse_hex_u16`: exactly four hexadecimal digits. Each step is
`(value << 4) | digit`, the digit filling the four bits the shift frees;
four digits never overflow the `u16`. -/
def parseHexU16 (hex : List Nat) : Option Nat :=
  if hex.length ≠ 4 then none
  else hex.foldlM (fun value b => (hexDigit b).map (value * 16 + ·)) 0

/-- `read_pkt_line`: the content of the first line, `none` for a flush,
delimiter or response-end packet, and how many bytes it takes. -/
def readPktLine (data : List Nat) : Except String (Option (List Nat) × Nat) :=
  if data.length < 4 then .error "pkt-line too short"
  else
    let lenHex := data.take 4
    if lenHex = flushPkt ∨ lenHex = delimPkt ∨ lenHex = responseEndPkt then .ok (none, 4)
    else
      match parseHexU16 lenHex with
      | none =>
        let preview := match utf8Decode lenHex with
          | some text => String.ofList text
          | none => "????"
        .error ("invalid pkt-line length: got \x27" ++ preview ++ "\x27 (expected hex)")
      | some len =>
        if len < 4 then .error "pkt-line length too small"
        else if data.length < len then .error "pkt-line truncated"
        else .ok (some ((data.take len).drop 4), len)

/-! ## The four digits of a length -/

theorem and_0xf (x : Nat) : x &&& 0xf = x % 16 := Nat.and_two_pow_sub_one_eq_mod x 4

theorem and_0xf_lt (x : Nat) : x &&& 0xf < 16 := by
  rw [and_0xf]
  exact Nat.mod_lt x (by decide)

/-- `u8::is_ascii_hexdigit`. -/
def isAsciiHexdigit (b : Nat) : Bool :=
  (0x30 ≤ b && b ≤ 0x39) || (0x41 ≤ b && b ≤ 0x46) || (0x61 ≤ b && b ≤ 0x66)

/-- What every reader of a length makes of the digit `HEX_CHARS` writes. -/
theorem hexChar_props {i : Nat} (hi : i < 16) :
    isAsciiHexdigit (hexChar i) = true ∧ hexChar i < 0x80 ∧ hexDigit (hexChar i) = some i ∧
      digitValue 16 (Char.ofNat (hexChar i)) = some i ∧ Char.ofNat (hexChar i) ≠ '+' := by
  have key : ∀ i < 16, isAsciiHexdigit (hexChar i) = true ∧ hexChar i < 0x80 ∧
      hexDigit (hexChar i) = some i ∧ digitValue 16 (Char.ofNat (hexChar i)) = some i ∧
      Char.ofNat (hexChar i) ≠ '+' := by decide
  exact key i hi

/-- The digits of a length that fits, read as a number. -/
theorem pktLenHex_value {len : Nat} (hlen : len < 2 ^ 16) :
    ((((len >>> 12) &&& 0xf) * 16 + ((len >>> 8) &&& 0xf)) * 16 + ((len >>> 4) &&& 0xf)) * 16 + (len &&& 0xf) =
      len := by
  simp only [and_0xf, Nat.shiftRight_eq_div_pow, Nat.reducePow] at hlen ⊢
  omega

theorem pktLenHex_ascii (len : Nat) : ∀ b ∈ pktLenHex len, b < 0x80 := by
  intro b hb
  simp only [pktLenHex, List.mem_cons, List.not_mem_nil, or_false] at hb
  rcases hb with rfl | rfl | rfl | rfl <;> exact (hexChar_props (and_0xf_lt _)).2.1

theorem pktLenHex_hex (len : Nat) : (pktLenHex len).all isAsciiHexdigit = true := by
  simp only [pktLenHex, List.all_cons, List.all_nil, Bool.and_true, Bool.and_eq_true]
  refine ⟨?_, ?_, ?_, ?_⟩ <;> exact (hexChar_props (and_0xf_lt _)).1

/-- `from_str_radix(_, 16)` reads a length back from its digits. -/
theorem fromStrRadix_pktLenHex {len : Nat} (hlen : len < 2 ^ 16) :
    fromStrRadix 16 16 ((pktLenHex len).map Char.ofNat) = some len := by
  have hd : ∀ x, digitValue 16 (Char.ofNat (hexChar (x &&& 0xf))) = some (x &&& 0xf) :=
    fun x => (hexChar_props (and_0xf_lt x)).2.2.2.1
  have hplus : Char.ofNat (hexChar ((len >>> 12) &&& 0xf)) ≠ '+' := (hexChar_props (and_0xf_lt _)).2.2.2.2
  rw [fromStrRadix, pktLenHex, List.map_cons, stripPlus_of_ne (fun rest h => hplus (List.cons.inj h).1),
    if_neg (List.cons_ne_nil _ _)]
  simp only [digitsValue, List.map_cons, List.map_nil, List.foldlM_cons, List.foldlM_nil, hd,
    Option.map_some, Option.bind_eq_bind, Option.bind_some, Option.pure_def, Nat.zero_mul, Nat.zero_add]
  rw [pktLenHex_value hlen]
  simpa using hlen

/-- `parse_hex_u16` reads a length back from its digits. -/
theorem parseHexU16_pktLenHex {len : Nat} (hlen : len < 2 ^ 16) : parseHexU16 (pktLenHex len) = some len := by
  have hd : ∀ x, hexDigit (hexChar (x &&& 0xf)) = some (x &&& 0xf) := fun x => (hexChar_props (and_0xf_lt x)).2.2.1
  rw [parseHexU16, if_neg (by simp [pktLenHex])]
  simp only [pktLenHex, List.foldlM_cons, List.foldlM_nil, hd, Option.map_some, Option.bind_eq_bind,
    Option.bind_some, Option.pure_def, Nat.zero_mul, Nat.zero_add]
  rw [pktLenHex_value hlen]

/-- `read_pkt_line` reads back the line `write_pkt_line` writes, in front of
anything, when its length fits in the four digits. -/
theorem readPktLine_writePktLine {content : List Nat} (hfit : content.length + 4 < 2 ^ 16) (rest : List Nat) :
    readPktLine (writePktLine content ++ rest) = .ok (some content, content.length + 4) := by
  have hhead : (writePktLine content ++ rest).take 4 = pktLenHex (content.length + 4) := by
    simp [writePktLine, pktLenHex]
  have hparse := parseHexU16_pktLenHex hfit
  -- a flush, delimiter or response-end packet would read as a length below 4
  have hspecial : ¬(pktLenHex (content.length + 4) = flushPkt ∨ pktLenHex (content.length + 4) = delimPkt ∨
      pktLenHex (content.length + 4) = responseEndPkt) := by
    have hflush : parseHexU16 flushPkt = some 0 := rfl
    have hdelim : parseHexU16 delimPkt = some 1 := rfl
    have hend : parseHexU16 responseEndPkt = some 2 := rfl
    rintro (h | h | h) <;> rw [h] at hparse <;> simp only [hflush, hdelim, hend, Option.some.injEq] at hparse <;>
      omega
  have hlen : (writePktLine content ++ rest).length = content.length + 4 + rest.length := by
    simp [writePktLine, pktLenHex]
    omega
  rw [readPktLine, if_neg (by omega)]
  dsimp only
  rw [hhead, if_neg hspecial, hparse]
  dsimp only
  rw [if_neg (by omega), if_neg (by omega)]
  simp [writePktLine, pktLenHex]

/-- A line read takes its four digits at least, and no more than there is. -/
theorem readPktLine_consumed {data : List Nat} {content : Option (List Nat)} {consumed : Nat}
    (h : readPktLine data = .ok (content, consumed)) : 4 ≤ consumed ∧ consumed ≤ data.length := by
  rw [readPktLine] at h
  split at h
  · cases h
  · dsimp only at h
    split at h
    · -- a flush, delimiter or response-end packet
      cases h
      omega
    · split at h
      · cases h
      · split_ifs at h with hsmall htrunc
        cases h
        omega

/-- A flush packet reads as no line, in front of anything. -/
theorem readPktLine_flush (rest : List Nat) : readPktLine (flushPkt ++ rest) = .ok (none, 4) := by
  simp [readPktLine, flushPkt]

/-! ## The sideband -/

/-- `SidebandState`: whether the sideband is on, the bytes not yet taken
apart, and whether the stream has turned to raw pack data. -/
structure SidebandState where
  enabled : Bool
  buffer : List Nat
  inPackData : Bool
  deriving DecidableEq, Repr

/-- `SidebandState::new`. -/
def SidebandState.new (enabled : Bool) : SidebandState := ⟨enabled, [], false⟩

/-- `find_pack_start`: the first `PACK`, looked for at every position but
the last four. -/
def findPackStart (data : List Nat) : Option Nat :=
  (List.range (data.length - 4)).find? fun i => (data.drop i).take 4 == packMagic

/-- What a pkt-line of the sideband carries, by its band: the data of band
1, for band 3 an error with the trimmed message when it is UTF-8, and
nothing for progress (band 2), other lines and the empty line. -/
def demuxContent (content : List Nat) : Except String (List Nat) :=
  match content with
  | 1 :: data => .ok data
  | 3 :: msg =>
    match utf8Decode msg with
    | some text => .error (String.ofList (trim text))
    | none => .ok []
  | _ => .ok []

/-- One round of the loop of `SidebandState::process` with the sideband on.
Once the stream has turned raw, the whole buffer is pack data. -/
def SidebandState.step (s : SidebandState) : Except String (Option (List Nat × SidebandState)) :=
  if s.inPackData then
    if s.buffer = [] then .ok none else .ok (some (s.buffer, { s with buffer := [] }))
  else if s.buffer.length < 4 then .ok none
  else
    let lenHex := s.buffer.take 4
    if !lenHex.all isAsciiHexdigit then
      -- not a pkt-line: look for the pack to resynchronise, else keep the
      -- last three bytes, where a `PACK` may begin
      match findPackStart s.buffer with
      | some pos => .ok (some (s.buffer.drop pos, { s with buffer := [], inPackData := true }))
      | none => .ok (some ([], { s with buffer := s.buffer.drop (s.buffer.length - min 3 s.buffer.length) }))
    else
      let lenStr := (utf8Decode lenHex).getD "0000".toList
      let len := (fromStrRadix 16 16 lenStr).getD 0
      if len = 0 then .ok (some ([], { s with buffer := s.buffer.drop 4 }))
      else if len < 4 ∨ s.buffer.length < len then .ok none
      else (demuxContent ((s.buffer.take len).drop 4)).map fun data =>
        some (data, { s with buffer := s.buffer.drop len })

/-- What a round that does not wait does to the state: the sideband stays
as it was, and the buffer gets shorter. -/
theorem SidebandState.step_shape {s s' : SidebandState} {o : List Nat} (h : s.step = .ok (some (o, s'))) :
    s'.enabled = s.enabled ∧ s'.buffer.length < s.buffer.length := by
  unfold SidebandState.step at h
  split at h
  · split at h
    · cases h
    · cases h
      exact ⟨rfl, List.length_pos_iff.mpr ‹_›⟩
  · split at h
    · cases h
    rename_i hshort
    dsimp only at h
    split at h
    · -- resynchronising on the pack magic, or dropping what cannot hold it
      split at h <;> cases h <;> refine ⟨rfl, ?_⟩ <;> simp only [List.length_drop, List.length_nil] <;> omega
    · split at h
      · cases h
        refine ⟨rfl, ?_⟩
        simp only [List.length_drop]
        omega
      · split at h
        · cases h
        · rename_i hlen
          cases hd : demuxContent ((s.buffer.take ((fromStrRadix 16 16
              ((utf8Decode (s.buffer.take 4)).getD "0000".toList)).getD 0)).drop 4) with
          | error e => rw [hd] at h; cases h
          | ok data =>
            rw [hd] at h
            cases h
            refine ⟨rfl, ?_⟩
            simp only [List.length_drop]
            omega

theorem SidebandState.step_lt {s s' : SidebandState} {o : List Nat} (h : s.step = .ok (some (o, s'))) :
    s'.buffer.length < s.buffer.length :=
  (SidebandState.step_shape h).2

/-- The loop of `SidebandState::process` as a decoder of bytes. -/
def sidebandDecoder : Decoder SidebandState Nat Nat String where
  step := SidebandState.step
  append s more := { s with buffer := s.buffer ++ more }
  measure s := s.buffer.length
  step_lt := SidebandState.step_lt
  append_nil s := by simp
  append_append s a b := by simp

/-- `SidebandState::process`: the pack data in `data`. Without the sideband
the bytes pass as they are, but for a `NAK` line at the start of a call
before the pack, which is skipped up to the pack. -/
def SidebandState.process (s : SidebandState) (data : List Nat) : Except String (List Nat × SidebandState) :=
  if s.enabled = false then
    if s.inPackData = false then
      if [0x4e, 0x41, 0x4b].isPrefixOf data || [0x30, 0x30, 0x30, 0x38, 0x4e, 0x41, 0x4b].isPrefixOf data then
        match findPackStart data with
        | some pos => .ok (data.drop pos, { s with inPackData := true })
        | none => .ok ([], { s with inPackData := true })
      else if packMagic.isPrefixOf data then .ok (data, { s with inPackData := true })
      else .ok (data, s)
    else .ok (data, s)
  else sidebandDecoder.feed s data

@[simp] theorem sidebandDecoder_append (s : SidebandState) (more : List Nat) :
    sidebandDecoder.append s more = { s with buffer := s.buffer ++ more } := rfl

@[simp] theorem sidebandDecoder_step (s : SidebandState) : sidebandDecoder.step s = s.step := rfl

/-- A call never turns the sideband on or off. -/
theorem SidebandState.feed_enabled {s s' : SidebandState} {data o : List Nat}
    (h : sidebandDecoder.feed s data = .ok (o, s')) : s'.enabled = s.enabled :=
  Decoder.drain_invariant (d := sidebandDecoder) (P := fun t : SidebandState => t.enabled = s.enabled)
    (fun ht hstep => (SidebandState.step_shape hstep).1.trans ht) (s := sidebandDecoder.append s data) rfl h

theorem SidebandState.process_of_enabled {s : SidebandState} (h : s.enabled = true) (data : List Nat) :
    s.process data = sidebandDecoder.feed s data := by
  rw [SidebandState.process, if_neg (by simp [h])]

/-- `find_pack_start` never reports a `PACK` that ends the data: the last
four positions are not looked at. -/
theorem findPackStart_lt {data : List Nat} {i : Nat} (h : findPackStart data = some i) :
    i + 4 < data.length := by
  have hmem := List.mem_of_find?_eq_some h
  rw [List.mem_range] at hmem
  omega

/-! ## A stream of packets -/

/-- What a server sends on the sideband: pkt-lines and flush packets. -/
inductive Pkt
  | flush
  | line (content : List Nat)
  deriving DecidableEq, Repr

/-- A packet's bytes, as `write_flush` and `write_pkt_line` write them. -/
def Pkt.encode : Pkt → List Nat
  | .flush => writeFlush
  | .line content => writePktLine content

/-- A packet whose length fits in the four digits. -/
def Pkt.Fits : Pkt → Prop
  | .flush => True
  | .line content => content.length + 4 < 2 ^ 16

instance (p : Pkt) : Decidable p.Fits :=
  match p with
  | .flush => inferInstanceAs (Decidable True)
  | .line content => inferInstanceAs (Decidable (content.length + 4 < 2 ^ 16))

/-- What a packet carries: nothing for a flush, its band's data for a line. -/
def Pkt.payload : Pkt → Except String (List Nat)
  | .flush => .ok []
  | .line content => demuxContent content

/-- The bytes of packets one after another. -/
def pktStream (pkts : List Pkt) : List Nat := (pkts.map Pkt.encode).flatten

/-- A stream of packets is empty only when there are none: each has four
bytes at least. -/
theorem pktStream_ne_nil {pkts : List Pkt} (h : pkts ≠ []) : pktStream pkts ≠ [] := by
  obtain ⟨p, pkts, rfl⟩ := List.exists_cons_of_ne_nil h
  cases p <;> simp [pktStream, Pkt.encode, writeFlush, flushPkt, writePktLine, pktLenHex]

/-- The length a packet's four digits give. -/
def Pkt.len : Pkt → Nat
  | .flush => 0
  | .line content => content.length + 4

theorem Pkt.encode_eq (p : Pkt) : p.encode = pktLenHex p.len ++ (p.encode.drop 4) := by
  cases p with
  | flush => rfl
  | line content => simp [Pkt.encode, Pkt.len, writePktLine, pktLenHex]

theorem Pkt.len_lt {p : Pkt} (h : p.Fits) : p.len < 2 ^ 16 := by
  cases p with
  | flush => decide
  | line content => exact h

theorem Pkt.length_encode (p : Pkt) : p.encode.length = max 4 p.len := by
  cases p with
  | flush => rfl
  | line content => simp [Pkt.encode, Pkt.len, writePktLine, pktLenHex]

/-- Short of a length's four digits, the loop waits. -/
theorem SidebandState.step_of_short {s : SidebandState} (hraw : s.inPackData = false)
    (hshort : s.buffer.length < 4) : s.step = .ok none := by
  unfold SidebandState.step
  rw [if_neg (by simp [hraw]), if_pos hshort]

/-- The round at a buffer that starts with the digits of a length: a flush
is dropped, a line waits until it is whole and then gives what its band
carries. -/
theorem SidebandState.step_pktLenHex {s : SidebandState} {len : Nat} (hraw : s.inPackData = false)
    (h4 : 4 ≤ s.buffer.length) (hhead : s.buffer.take 4 = pktLenHex len) (hlen : len < 2 ^ 16) :
    s.step = if len = 0 then .ok (some ([], { s with buffer := s.buffer.drop 4 }))
      else if len < 4 ∨ s.buffer.length < len then .ok none
      else (demuxContent ((s.buffer.take len).drop 4)).map fun data =>
        some (data, { s with buffer := s.buffer.drop len }) := by
  have hutf : utf8Decode (pktLenHex len) = some ((pktLenHex len).map Char.ofNat) :=
    utf8Decode_ascii (pktLenHex_ascii len)
  unfold SidebandState.step
  rw [if_neg (by simp [hraw]), if_neg (by omega)]
  dsimp only
  rw [hhead, pktLenHex_hex, hutf]
  simp only [Bool.not_true, Bool.false_eq_true, if_false, Option.getD_some, fromStrRadix_pktLenHex hlen]

/-- The round at a packet at the head of what comes: it waits while the
packet is not whole, and then gives what the packet carries and drops it. -/
theorem SidebandState.step_pkt {s : SidebandState} {p : Pkt} {more rest : List Nat}
    (hraw : s.inPackData = false) (hfit : p.Fits) (hbuf : s.buffer ++ more = p.encode ++ rest) :
    (s.buffer.length < p.encode.length ∧ s.step = .ok none) ∨
      (p.encode.length ≤ s.buffer.length ∧
        s.step = p.payload.map fun data => some (data, { s with buffer := s.buffer.drop p.encode.length })) := by
  have henc := p.length_encode
  by_cases hshort : s.buffer.length < 4
  · exact .inl ⟨by omega, SidebandState.step_of_short hraw hshort⟩
  have hhead : s.buffer.take 4 = pktLenHex p.len := by
    have h := congrArg (List.take 4) hbuf
    rw [List.take_append_of_le_length (by omega), p.encode_eq, List.append_assoc,
      List.take_append_of_le_length (by simp [pktLenHex])] at h
    rw [h]
    rfl
  cases p with
  | flush =>
    -- the length `0000`: the flush is dropped
    have hstep := @SidebandState.step_pktLenHex s 0 hraw (by omega) hhead (by decide)
    right
    refine ⟨by simp only [Pkt.encode, writeFlush, flushPkt, List.length_cons, List.length_nil]; omega, ?_⟩
    rw [hstep, if_pos rfl]
    rfl
  | line content =>
    have hstep := @SidebandState.step_pktLenHex s (content.length + 4) hraw (by omega) hhead hfit
    have hlen : (Pkt.line content).encode.length = content.length + 4 := by
      simp [Pkt.encode, writePktLine, pktLenHex]
    rw [if_neg (by omega)] at hstep
    by_cases hwait : s.buffer.length < content.length + 4
    · left
      refine ⟨by omega, ?_⟩
      rw [hstep, if_pos (.inr hwait)]
    · right
      refine ⟨by omega, ?_⟩
      -- the content is whole in the buffer
      have hcontent : (s.buffer.take (content.length + 4)).drop 4 = content := by
        have h := congrArg (List.take (content.length + 4)) hbuf
        rw [List.take_append_of_le_length (by omega), List.take_append_of_le_length (by omega),
          List.take_of_length_le (l := (Pkt.line content).encode) (by omega)] at h
        rw [h]
        simp [Pkt.encode, writePktLine, pktLenHex]
      rw [hstep, if_neg (by omega), hcontent, hlen]
      rfl

/-- The state of the demultiplexer while a stream of packets comes: not
raw, with the bytes still to come making the rest of the stream. -/
def SidebandState.InStream (more : List Nat) (s : SidebandState) : Prop :=
  s.inPackData = false ∧ ∃ pkts : List Pkt, (∀ p ∈ pkts, p.Fits) ∧ s.buffer ++ more = pktStream pkts

/-- Input that comes moves from what is to come into the buffer. -/
theorem SidebandState.inStream_append {s : SidebandState} {c more : List Nat} (hI : s.InStream (c ++ more)) :
    (sidebandDecoder.append s c).InStream more := by
  obtain ⟨hraw, pkts, hfits, hbuf⟩ := hI
  exact ⟨hraw, pkts, hfits, by simpa using hbuf⟩

/-- A round that does not wait, in a stream of packets: the first packet is
whole in the buffer, and the round gives what it carries and drops it; over
the buffer with what comes appended, the round is the same. -/
theorem SidebandState.step_inStream {s : SidebandState} {more : List Nat} (hI : s.InStream more)
    (hstep : s.step ≠ .ok none) :
    ∃ (p : Pkt) (pkts : List Pkt), (∀ q ∈ pkts, q.Fits) ∧ s.buffer.drop p.encode.length ++ more = pktStream pkts ∧
      s.step = p.payload.map (fun data => some (data, { s with buffer := s.buffer.drop p.encode.length })) ∧
      ({ s with buffer := s.buffer ++ more } : SidebandState).step =
        p.payload.map fun data => some (data, { s with buffer := s.buffer.drop p.encode.length ++ more }) := by
  obtain ⟨hraw, pkts, hfits, hbuf⟩ := hI
  cases pkts with
  | nil =>
    -- nothing comes: the buffer is empty and the round waits
    have hnil : s.buffer = [] := (List.eq_nil_of_append_eq_nil hbuf).1
    exact absurd (SidebandState.step_of_short hraw (by simp [hnil])) hstep
  | cons p pkts =>
    have hfit := hfits p List.mem_cons_self
    rcases SidebandState.step_pkt hraw hfit hbuf with ⟨_, hwait⟩ | ⟨hle, hs⟩
    · exact absurd hwait hstep
    have hlong := @SidebandState.step_pkt { s with buffer := s.buffer ++ more } p [] _ hraw hfit
      (by rw [List.append_nil]; exact hbuf)
    rcases hlong with ⟨hlt, -⟩ | ⟨-, hlong⟩
    · simp only [List.length_append] at hlt
      omega
    have hdrop := congrArg (List.drop p.encode.length) hbuf
    rw [List.drop_append_of_le_length hle, pktStream, List.map_cons, List.flatten_cons, List.drop_left] at hdrop
    refine ⟨p, pkts, fun q hq => hfits q (List.mem_cons_of_mem p hq), hdrop, hs, ?_⟩
    rw [hlong]
    dsimp only
    rw [List.drop_append_of_le_length hle]

/-- The demultiplexer extends over longer buffers while a stream of packets
comes. -/
theorem sidebandDecoder_extends : sidebandDecoder.Extends SidebandState.InStream where
  error := by
    intro more s e hI h
    rw [sidebandDecoder_step] at h
    obtain ⟨p, -, -, -, hs, hlong⟩ := SidebandState.step_inStream hI (by rw [h]; simp)
    rw [sidebandDecoder_append]
    apply Decoder.drain_of_error
    rw [sidebandDecoder_step, hlong]
    rw [h] at hs
    cases hp : p.payload with
    | error e' => rw [hp] at hs; cases hs; rfl
    | ok data => rw [hp] at hs; cases hs
  emit := by
    intro more s o s' hI h
    rw [sidebandDecoder_step] at h
    obtain ⟨p, -, -, -, hs, hlong⟩ := SidebandState.step_inStream hI (by rw [h]; simp)
    rw [sidebandDecoder_append, sidebandDecoder_append]
    apply Decoder.drain_of_emit
    rw [sidebandDecoder_step, hlong]
    rw [h] at hs
    cases hp : p.payload with
    | error e => rw [hp] at hs; cases hs
    | ok data =>
      rw [hp] at hs
      cases hs
      rfl
  keep := by
    intro more s o s' hI h
    rw [sidebandDecoder_step] at h
    obtain ⟨p, pkts, hfits, hrest, hs, -⟩ := SidebandState.step_inStream hI (by rw [h]; simp)
    rw [h] at hs
    cases hp : p.payload with
    | error e => rw [hp] at hs; cases hs
    | ok data =>
      rw [hp] at hs
      cases hs
      -- what is left of the buffer, and what comes, is the rest of the stream
      exact ⟨hI.1, pkts, hfits, hrest⟩

/-- A whole stream of packets in the buffer: the demultiplexer gives what
they carry, in order, or the first error, and ends with an empty buffer. -/
theorem SidebandState.drain_pktStream :
    ∀ (pkts : List Pkt) {s : SidebandState}, s.inPackData = false → (∀ p ∈ pkts, p.Fits) →
      s.buffer = pktStream pkts →
      sidebandDecoder.drain s = (pkts.mapM Pkt.payload).map fun datas => (datas.flatten, { s with buffer := [] })
  | [], s, hraw, _, hbuf => by
    rw [Decoder.drain_of_wait (SidebandState.step_of_short hraw (by simp [hbuf, pktStream]))]
    have hs : ({ s with buffer := [] } : SidebandState) = s := by
      cases s
      simp only [pktStream, List.map_nil, List.flatten_nil] at hbuf
      subst hbuf
      rfl
    simp [hs, pure, Except.pure, Except.map]
  | p :: pkts, s, hraw, hfits, hbuf => by
    have hfit := hfits p List.mem_cons_self
    have hbuf' : s.buffer ++ [] = p.encode ++ pktStream pkts := by simp [hbuf, pktStream]
    rcases SidebandState.step_pkt hraw hfit hbuf' with ⟨hlt, -⟩ | ⟨-, hs⟩
    · simp [hbuf, pktStream] at hlt
    have hdrop : s.buffer.drop p.encode.length = pktStream pkts := by simp [hbuf, pktStream]
    rw [List.mapM_cons]
    cases hp : p.payload with
    | error e =>
      rw [hp] at hs
      exact Decoder.drain_of_error hs
    | ok data =>
      rw [hp] at hs
      -- the first packet, then the others
      rw [Decoder.drain_of_emit (d := sidebandDecoder) hs, hdrop,
        @SidebandState.drain_pktStream pkts { s with buffer := pktStream pkts } hraw
          (fun q hq => hfits q (List.mem_cons_of_mem p hq)) rfl]
      cases hrest : pkts.mapM Pkt.payload <;> simp [Except.map, pure, Except.pure, Except.bind, bind]

/-- A stream of sideband packets, each of a length that fits its four
digits, cut anywhere into calls of `SidebandState::process` from a new
demultiplexer with the sideband on: the calls give the data of band 1,
packet after packet, or fail with the message of the first error on band 3,
and end as they began. -/
theorem sideband_demuxes_however_cut (pkts : List Pkt) (hfit : ∀ p ∈ pkts, p.Fits)
    (cuts : List (List Nat)) (hcuts : cuts.flatten = pktStream pkts) :
    sidebandDecoder.feedAll (SidebandState.new true) cuts =
      (pkts.mapM Pkt.payload).map fun datas => (datas.flatten, SidebandState.new true) := by
  rw [Decoder.feedAll_eq_feed sidebandDecoder_extends SidebandState.inStream_append cuts rfl ⟨rfl, pkts, hfit, by simp [SidebandState.new, hcuts]⟩,
    Decoder.feed, sidebandDecoder_append]
  exact SidebandState.drain_pktStream pkts rfl hfit (by simp [SidebandState.new, hcuts])

/-- A line of band 1, a progress line and a flush, cut inside the first
line's length and inside its data: the data of band 1 comes out. -/
theorem sideband_demuxes_however_cut_three_calls :
    (∀ p ∈ [Pkt.line [1, 0x50, 0x41], .line [2, 0x68, 0x69], .flush], p.Fits) ∧
      [[0x30, 0x30], [0x30, 0x37, 1, 0x50], [0x41, 0x30, 0x30, 0x30, 0x37, 2, 0x68, 0x69, 0x30, 0x30, 0x30, 0x30]].flatten =
        pktStream [.line [1, 0x50, 0x41], .line [2, 0x68, 0x69], .flush] ∧
      sidebandDecoder.feedAll (SidebandState.new true)
          [[0x30, 0x30], [0x30, 0x37, 1, 0x50], [0x41, 0x30, 0x30, 0x30, 0x37, 2, 0x68, 0x69, 0x30, 0x30, 0x30, 0x30]] =
        ([Pkt.line [1, 0x50, 0x41], .line [2, 0x68, 0x69], .flush].mapM Pkt.payload).map
          fun datas => (datas.flatten, SidebandState.new true) :=
  ⟨by decide, rfl, sideband_demuxes_however_cut [.line [1, 0x50, 0x41], .line [2, 0x68, 0x69], .flush] (by decide) _ rfl⟩

example : ([Pkt.line [1, 0x50, 0x41], .line [2, 0x68, 0x69], .flush].mapM Pkt.payload).map
    (fun datas => (datas.flatten, SidebandState.new true)) = .ok ([0x50, 0x41], SidebandState.new true) := rfl

end Akuma.Git
