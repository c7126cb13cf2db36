import Akuma.Lib.Panic
import Akuma.Lib.Bytes

/-!
# SSH packet decoders

The two transport decoders of the kernel SSH server
(`crates/akuma-ssh/src/packet.rs`) and the packet builders they are meant
to invert (`crates/akuma-ssh-crypto/src/crypto.rs`).

A decoder reads the leading binary packet of the session's
`input_buffer`: a 4-byte big-endian `packet_length`, a `padding_length`
byte, the message type byte and the rest of the payload, then the
padding and, on an encrypted session, a 32-byte HMAC-SHA256 tag. Both
decoders run on bytes sent before authentication, so every length in
the buffer is chosen by the peer.

Arithmetic is checked as in the development profile: the payload length
`packet_len - padding_len - 1` is a `checkedSub`. In a release build
the subtraction wraps instead, and the wrapped length then fails the
bounds of the slice that uses it, so the inputs that panic are the same.

The cipher is AES-128 in counter mode: applying the keystream XORs the
data with the keystream bytes from the cipher's current position and
moves the position past the data. The keystream itself (the block
cipher) and HMAC-SHA256 are outside the repository; they are parameters
here (`CtrCipher.keystream` and `hmac`).
-/

namespace Akuma.Ssh

open Panicking ByteCodec

/-- `MAC_SIZE`: the length of an HMAC-SHA256 tag. -/
def macSize : Nat := 32

/-- An AES-128-CTR stream cipher: its keystream (a function of the byte
position, fixed by key and IV) and its current position. -/
structure CtrCipher where
  keystream : Nat → UInt8
  pos : Nat

/-- The keystream bytes `i, i+1, …` XORed onto `data`. -/
def xorFrom (ks : Nat → UInt8) : Nat → List UInt8 → List UInt8
  | _, [] => []
  | i, b :: bs => (b ^^^ ks i) :: xorFrom ks (i + 1) bs

/-- `StreamCipher::apply_keystream`: the transformed data and the
advanced cipher. -/
def CtrCipher.applyKeystream (c : CtrCipher) (data : List UInt8) :
    List UInt8 × CtrCipher :=
  (xorFrom c.keystream c.pos data, { c with pos := c.pos + data.length })

@[simp] theorem length_xorFrom (ks : Nat → UInt8) (i : Nat) (data : List UInt8) :
    (xorFrom ks i data).length = data.length := by
  induction data generalizing i with
  | nil => rfl
  | cons b bs ih => simp [xorFrom, ih]

/-- The receive half of `CryptoState`: what the decoders read and write. -/
structure CryptoState where
  decryptCipher : Option CtrCipher
  decryptMacKey : List UInt8
  decryptSeq : UInt32

/-- The part of `SshSession` the decoders touch. -/
structure SshSession where
  crypto : CryptoState
  inputBuffer : List UInt8

/-- The session after a packet was consumed: the sequence number moves
on and the buffer keeps what follows the packet. -/
def SshSession.consume (s : SshSession) (rest : List UInt8) : SshSession :=
  { s with
    crypto := { s.crypto with decryptSeq := s.crypto.decryptSeq + 1 }
    inputBuffer := rest }

/-- `process_unencrypted_packet`. -/
def processUnencryptedPacket (session : SshSession) :
    Except Panic (Option (UInt8 × List UInt8) × SshSession) := do
  let buf := session.inputBuffer
  if buf.length < 5 then
    return (none, session)
  let packetLen := beNat (← slice buf 0 4)
  let totalLen := 4 + packetLen
  if buf.length < totalLen then
    return (none, session)
  let paddingLen := (← index buf 4).toNat
  let payloadLen ← checkedSub (← checkedSub packetLen paddingLen) 1
  let msgType ← index buf 5
  let payload ← slice buf 6 (5 + payloadLen)
  let rest ← sliceFrom buf totalLen
  return (some (msgType, payload), session.consume rest)

/-- The body of `process_encrypted_packet` once the length field has been
peeked with a clone of `cipher`: `packetLen` is that decrypted field. -/
def processEncryptedFrame (hmac : List UInt8 → List UInt8 → List UInt8)
    (session : SshSession) (cipher : CtrCipher) (packetLen : Nat) :
    Except Panic (Option (UInt8 × List UInt8) × SshSession) := do
  let buf := session.inputBuffer
  let totalNeeded := 4 + packetLen + macSize
  if buf.length < totalNeeded then
    return (none, session)
  let encryptedData ← slice buf 0 (4 + packetLen)
  let receivedMac ← slice buf (4 + packetLen) totalNeeded
  let decrypted := (cipher.applyKeystream encryptedData).1
  -- from here on the session's own cipher has moved past the packet
  let session := { session with
    crypto := { session.crypto with decryptCipher := some (cipher.applyKeystream encryptedData).2 } }
  let seq := session.crypto.decryptSeq
  if hmac session.crypto.decryptMacKey (beBytes seq.toNat 4 ++ decrypted) ≠ receivedMac then
    return (none, session)
  let session := { session with crypto := { session.crypto with decryptSeq := seq + 1 } }
  let paddingLen := (← index decrypted 4).toNat
  let payloadLen ← checkedSub (← checkedSub packetLen paddingLen) 1
  if decrypted.length < 5 + payloadLen then
    return (none, session)
  let msgType ← index decrypted 5
  let payload ← slice decrypted 6 (5 + payloadLen)
  let rest ← sliceFrom buf totalNeeded
  return (some (msgType, payload), { session with inputBuffer := rest })

/-- `process_encrypted_packet`, for an HMAC-SHA256 given as
`hmac key message`. -/
def processEncryptedPacket (hmac : List UInt8 → List UInt8 → List UInt8)
    (session : SshSession) : Except Panic (Option (UInt8 × List UInt8) × SshSession) := do
  let buf := session.inputBuffer
  if buf.length < 4 then
    return (none, session)
  match session.crypto.decryptCipher with
  | none => return (none, session)
  | some cipher =>
    -- the length is decrypted with a clone: `cipher` itself stays put
    let packetLen := beNat (cipher.applyKeystream (← slice buf 0 4)).1
    processEncryptedFrame hmac session cipher packetLen

/-- `build_packet`'s padding: enough to bring `5 + len` to a multiple of
`block`, and never less than 4 bytes. -/
def paddingFor (block len : Nat) : Nat :=
  let pad := block - (5 + len) % block
  if pad < 4 then pad + block else pad

/-- `build_packet`: an unencrypted packet with zero padding. -/
def buildPacket (payload : List UInt8) : List UInt8 :=
  let paddingLen := paddingFor 8 payload.length
  let packetLen := 1 + payload.length + paddingLen
  beBytes packetLen 4 ++ UInt8.ofNat paddingLen :: payload ++ List.replicate paddingLen 0

/-! ## The fields a decoder reads -/

/-- The peer's `packet_length` field. -/
def packetLength (buf : List UInt8) : Nat := beNat (buf.take 4)

/-- The peer's `padding_length` field. -/
def paddingLength (buf : List UInt8) : Nat := (buf.getD 4 0).toNat

theorem slice_header {buf : List UInt8} (h : 4 ≤ buf.length) :
    slice buf 0 4 = .ok (buf.take 4) := by
  simp [slice_of_le (by omega : 0 ≤ 4) h]

theorem index_getD {buf : List UInt8} {i : Nat} (h : i < buf.length) :
    index buf i = .ok (buf.getD i 0) := by
  rw [index_of_lt h, List.getD_eq_getElem _ _ h]

/-! ## The unencrypted decoder, case by case

Four disjoint cases cover every buffer: too short for a header, a header
whose packet is not all there yet, a packet whose padding leaves no
message type, and a well-formed packet. -/

section Unencrypted

variable {s : SshSession}

theorem processUnencryptedPacket_short (h : s.inputBuffer.length < 5) :
    processUnencryptedPacket s = .ok (none, s) := by
  simp [processUnencryptedPacket, h]

theorem processUnencryptedPacket_incomplete (h5 : 5 ≤ s.inputBuffer.length)
    (h : s.inputBuffer.length < 4 + packetLength s.inputBuffer) :
    processUnencryptedPacket s = .ok (none, s) := by
  unfold processUnencryptedPacket
  simp only [packetLength] at h
  rw [if_neg (by omega), slice_header (by omega), ok_bind, if_pos h, pure_eq]

theorem processUnencryptedPacket_decodes (h5 : 5 ≤ s.inputBuffer.length)
    (h : 4 + packetLength s.inputBuffer ≤ s.inputBuffer.length)
    (hpad : paddingLength s.inputBuffer + 2 ≤ packetLength s.inputBuffer) :
    processUnencryptedPacket s = .ok (some (s.inputBuffer.getD 5 0,
      (s.inputBuffer.take (4 + packetLength s.inputBuffer - paddingLength s.inputBuffer)).drop 6),
      s.consume (s.inputBuffer.drop (4 + packetLength s.inputBuffer))) := by
  unfold processUnencryptedPacket
  simp only [packetLength, paddingLength] at h hpad ⊢
  rw [if_neg (by omega), slice_header (by omega), ok_bind, if_neg (by omega),
    index_getD (by omega), ok_bind, checkedSub_of_le (by omega), ok_bind,
    checkedSub_of_le (by omega), ok_bind, index_getD (by omega), ok_bind,
    slice_of_le (by omega) (by omega), ok_bind, sliceFrom_of_le (by omega), ok_bind, pure_eq]
  -- the slice end `5 + payload_len` is the end of the payload
  have hend : 5 + (beNat (s.inputBuffer.take 4) - (s.inputBuffer.getD 4 0).toNat - 1) =
      4 + beNat (s.inputBuffer.take 4) - (s.inputBuffer.getD 4 0).toNat := by omega
  rw [hend]

/-- A complete packet whose padding leaves no room for the message type
aborts the decoder: the payload length underflows, or (at
`packet_length = padding_length + 1`) the message type is read at index 5
past a 5-byte buffer, or the payload slice runs from 6 back to 5. -/
theorem processUnencryptedPacket_panics (h5 : 5 ≤ s.inputBuffer.length)
    (h : 4 + packetLength s.inputBuffer ≤ s.inputBuffer.length)
    (hpad : packetLength s.inputBuffer < paddingLength s.inputBuffer + 2) :
    ∃ e, processUnencryptedPacket s = .error e := by
  unfold processUnencryptedPacket
  simp only [packetLength, paddingLength] at h hpad
  rw [if_neg (by omega), slice_header (by omega), ok_bind, if_neg (by omega),
    index_getD (by omega), ok_bind]
  dsimp only
  rcases Nat.lt_or_ge (beNat (s.inputBuffer.take 4)) (s.inputBuffer.getD 4 0).toNat with
    hlt | hge
  · -- `packet_len - padding_len` underflows
    exact ⟨_, by rw [checkedSub_of_lt hlt, error_bind]⟩
  rw [checkedSub_of_le hge, ok_bind]
  by_cases heq : beNat (s.inputBuffer.take 4) = (s.inputBuffer.getD 4 0).toNat
  · -- `... - 1` underflows
    exact ⟨_, by rw [heq, Nat.sub_self, checkedSub_of_lt (by omega), error_bind]⟩
  -- here `payload_len = 0`
  rw [checkedSub_of_le (by omega), ok_bind,
    show beNat (s.inputBuffer.take 4) - (s.inputBuffer.getD 4 0).toNat - 1 = 0 by omega]
  by_cases hlen : s.inputBuffer.length = 5
  · exact ⟨_, by rw [index_of_le (by omega), error_bind]⟩
  · exact ⟨_, by rw [index_getD (by omega), ok_bind, slice_of_gt (by omega), error_bind]⟩

/-- The four cases together: the decoder waits for more bytes and leaves
the session as it is, decodes a well-formed packet, or aborts on a complete
packet whose padding leaves no room for the message type. -/
theorem processUnencryptedPacket_cases :
    processUnencryptedPacket s = .ok (none, s) ∨
      (paddingLength s.inputBuffer + 2 ≤ packetLength s.inputBuffer ∧
        4 + packetLength s.inputBuffer ≤ s.inputBuffer.length ∧
        processUnencryptedPacket s = .ok (some (s.inputBuffer.getD 5 0,
          (s.inputBuffer.take (4 + packetLength s.inputBuffer - paddingLength s.inputBuffer)).drop 6),
          s.consume (s.inputBuffer.drop (4 + packetLength s.inputBuffer)))) ∨
      (5 ≤ s.inputBuffer.length ∧ 4 + packetLength s.inputBuffer ≤ s.inputBuffer.length ∧
        packetLength s.inputBuffer < paddingLength s.inputBuffer + 2 ∧
        ∃ e, processUnencryptedPacket s = .error e) := by
  by_cases h5 : s.inputBuffer.length < 5
  · exact .inl (processUnencryptedPacket_short h5)
  by_cases hin : s.inputBuffer.length < 4 + packetLength s.inputBuffer
  · exact .inl (processUnencryptedPacket_incomplete (by omega) hin)
  by_cases hpad : paddingLength s.inputBuffer + 2 ≤ packetLength s.inputBuffer
  · exact .inr (.inl ⟨hpad, by omega, processUnencryptedPacket_decodes (by omega) (by omega) hpad⟩)
  · exact .inr (.inr ⟨by omega, by omega, by omega,
      processUnencryptedPacket_panics (by omega) (by omega) (by omega)⟩)

/-- Exactly the buffers of `processUnencryptedPacket_panics` abort the
decoder. -/
theorem processUnencryptedPacket_panics_iff :
    (∃ e, processUnencryptedPacket s = .error e) ↔
      5 ≤ s.inputBuffer.length ∧ 4 + packetLength s.inputBuffer ≤ s.inputBuffer.length ∧
        packetLength s.inputBuffer < paddingLength s.inputBuffer + 2 := by
  constructor
  · rintro ⟨e, he⟩
    rcases processUnencryptedPacket_cases (s := s) with h | ⟨-, -, h⟩ | ⟨h5, h, hpad, -⟩
    · rw [h] at he
      cases he
    · rw [h] at he
      cases he
    · exact ⟨h5, h, hpad⟩
  · rintro ⟨h5, h, hpad⟩
    exact processUnencryptedPacket_panics h5 h hpad

/-- When the decoder returns `None` the session is untouched. -/
theorem processUnencryptedPacket_none {s' : SshSession}
    (h : processUnencryptedPacket s = .ok (none, s')) : s' = s := by
  rcases processUnencryptedPacket_cases (s := s) with hs | ⟨-, -, hs⟩ | ⟨-, -, -, e, hs⟩
  · rw [hs] at h
    cases h
    rfl
  · rw [hs] at h
    cases h
  · rw [hs] at h
    cases h

/-- When the decoder returns a message, the leading packet was well formed
and the message is read from it: the type is byte 5, the payload bytes
`6 .. 4 + packet_length - padding_length`, and exactly the packet leaves
the buffer while the sequence number moves on. -/
theorem processUnencryptedPacket_some {s' : SshSession} {t : UInt8} {p : List UInt8}
    (h : processUnencryptedPacket s = .ok (some (t, p), s')) :
    paddingLength s.inputBuffer + 2 ≤ packetLength s.inputBuffer ∧
      4 + packetLength s.inputBuffer ≤ s.inputBuffer.length ∧
      t = s.inputBuffer.getD 5 0 ∧
      p = (s.inputBuffer.take (4 + packetLength s.inputBuffer - paddingLength s.inputBuffer)).drop 6 ∧
      s' = s.consume (s.inputBuffer.drop (4 + packetLength s.inputBuffer)) := by
  rcases processUnencryptedPacket_cases (s := s) with hs | ⟨hpad, hin, hs⟩ | ⟨-, -, -, e, hs⟩
  · rw [hs] at h
    cases h
  · rw [hs] at h
    cases h
    exact ⟨hpad, hin, rfl, rfl, rfl⟩
  · rw [hs] at h
    cases h

/-- The 5-byte buffer `00 00 00 01 00` announces a one-byte packet with no
padding: the decoder reads the message type at index 5 of a 5-byte
buffer and aborts. -/
theorem processUnencryptedPacket_one_byte_packet (crypto : CryptoState) :
    processUnencryptedPacket ⟨crypto, [0, 0, 0, 1, 0]⟩ = .error (.indexOutOfBounds 5 5) := by
  simp [processUnencryptedPacket, slice, index, checkedSub, beNat]

end Unencrypted

/-! ## Round trip with the builder -/

/-- `build_packet`'s 5-byte header. -/
def packetHeader (p : List UInt8) : List UInt8 :=
  beBytes (1 + p.length + paddingFor 8 p.length) 4 ++ [UInt8.ofNat (paddingFor 8 p.length)]

theorem paddingFor_bounds (block len : Nat) (hb : 4 ≤ block) :
    4 ≤ paddingFor block len ∧ paddingFor block len ≤ block + 3 := by
  have := Nat.mod_lt (5 + len) (by omega : 0 < block)
  unfold paddingFor
  dsimp only
  split_ifs <;> omega

theorem buildPacket_eq (p : List UInt8) :
    buildPacket p = packetHeader p ++ (p ++ List.replicate (paddingFor 8 p.length) 0) := by
  simp [buildPacket, packetHeader]

@[simp] theorem length_packetHeader (p : List UInt8) : (packetHeader p).length = 5 := by
  simp [packetHeader]

section RoundTrip

variable (p rest : List UInt8)

theorem length_buildPacket_append :
    (buildPacket p ++ rest).length = 5 + p.length + paddingFor 8 p.length + rest.length := by
  simp [buildPacket_eq]
  omega

theorem packetLength_buildPacket (hfit : p.length + 20 < 2 ^ 32) :
    packetLength (buildPacket p ++ rest) = 1 + p.length + paddingFor 8 p.length := by
  have hpad := paddingFor_bounds 8 p.length (by omega)
  have htake : (buildPacket p ++ rest).take 4 = beBytes (1 + p.length + paddingFor 8 p.length) 4 := by
    simp [buildPacket]
  rw [packetLength, htake, beNat_beBytes, Nat.mod_eq_of_lt (by norm_num; omega)]

theorem paddingLength_buildPacket :
    paddingLength (buildPacket p ++ rest) = paddingFor 8 p.length := by
  have hpad := paddingFor_bounds 8 p.length (by omega)
  have hbyte : (buildPacket p ++ rest).getD 4 0 = UInt8.ofNat (paddingFor 8 p.length) := by
    simp [List.getD_eq_getElem?_getD, buildPacket]
  rw [paddingLength, hbyte, UInt8.toNat_ofNat', Nat.mod_eq_of_lt (by omega)]

theorem type_buildPacket (hp : p ≠ []) : (buildPacket p ++ rest).getD 5 0 = p.head hp := by
  obtain ⟨x, xs, rfl⟩ := List.exists_cons_of_ne_nil hp
  rw [buildPacket_eq, List.append_assoc, List.getD_eq_getElem?_getD,
    List.getElem?_append_right (by simp)]
  simp

theorem payload_buildPacket : ((buildPacket p ++ rest).take (5 + p.length)).drop 6 = p.tail := by
  have h6 : 6 = (packetHeader p).length + 1 := by simp
  rw [buildPacket_eq, List.append_assoc, ← length_packetHeader p, List.take_length_add_append,
    h6, List.drop_length_add_append, List.append_assoc, List.take_left' rfl, List.drop_one]

theorem rest_buildPacket :
    (buildPacket p ++ rest).drop (5 + p.length + paddingFor 8 p.length) = rest := by
  rw [buildPacket_eq, List.append_assoc, ← length_packetHeader p, Nat.add_assoc,
    List.drop_length_add_append, List.append_assoc, List.drop_length_add_append,
    List.drop_left' (by simp)]

/-- The decoder inverts the builder on every non-empty payload whose
packet length fits the 32-bit field, whatever follows the packet. -/
theorem processUnencryptedPacket_buildPacket (s : SshSession) (hp : p ≠ [])
    (hfit : p.length + 20 < 2 ^ 32) (hbuf : s.inputBuffer = buildPacket p ++ rest) :
    processUnencryptedPacket s = .ok (some (p.head hp, p.tail), s.consume rest) := by
  have hpad := paddingFor_bounds 8 p.length (by omega)
  have hnil : 1 ≤ p.length := List.length_pos_iff.mpr hp
  have hlen := length_buildPacket_append p rest
  have hpl := packetLength_buildPacket p rest hfit
  have hpd := paddingLength_buildPacket p rest
  rw [← hbuf] at hlen hpl hpd
  rw [processUnencryptedPacket_decodes (by omega) (by omega) (by omega), hpl, hpd, hbuf,
    show 4 + (1 + p.length + paddingFor 8 p.length) - paddingFor 8 p.length = 5 + p.length by omega,
    type_buildPacket p rest hp, payload_buildPacket,
    show 4 + (1 + p.length + paddingFor 8 p.length) = 5 + p.length + paddingFor 8 p.length by omega,
    rest_buildPacket]

end RoundTrip

/-! ## The encrypted decoder -/

/-- The `packet_length` an encrypted session reads: the first four bytes
decrypted at the cipher's position. -/
def encPacketLength (c : CtrCipher) (buf : List UInt8) : Nat :=
  beNat (xorFrom c.keystream c.pos (buf.take 4))

section Encrypted

variable (hmac : List UInt8 → List UInt8 → List UInt8) {s : SshSession}

theorem processEncryptedPacket_noCipher (h : s.crypto.decryptCipher = none) :
    processEncryptedPacket hmac s = .ok (none, s) := by
  unfold processEncryptedPacket
  dsimp only
  split_ifs <;> simp [h]

/-- With a cipher, the decoder peeks the length field and hands the packet
to `processEncryptedFrame`. -/
theorem processEncryptedPacket_eq {c : CtrCipher} (hc : s.crypto.decryptCipher = some c)
    (h4 : 4 ≤ s.inputBuffer.length) :
    processEncryptedPacket hmac s =
      processEncryptedFrame hmac s c (encPacketLength c s.inputBuffer) := by
  unfold processEncryptedPacket
  rw [if_neg (by omega), hc]
  dsimp only
  rw [slice_header h4, ok_bind]
  rfl

theorem processEncryptedPacket_short (h : s.inputBuffer.length < 4) :
    processEncryptedPacket hmac s = .ok (none, s) := by
  unfold processEncryptedPacket
  rw [if_pos h, pure_eq]

/-- Until the whole packet and its tag are in, the decoder waits and
leaves the session as it is: the length was peeked with a clone. -/
theorem processEncryptedFrame_incomplete {c : CtrCipher} {pl : Nat}
    (h : s.inputBuffer.length < 4 + pl + macSize) :
    processEncryptedFrame hmac s c pl = .ok (none, s) := by
  unfold processEncryptedFrame
  rw [if_pos h, pure_eq]

/-- A complete packet whose tag verifies and whose padding leaves a message
type is decoded: the cipher moves past the packet, the sequence number
moves on and the packet and its tag leave the buffer. -/
theorem processEncryptedFrame_decodes {c : CtrCipher} {pl : Nat} {dec : List UInt8}
    (h : 4 + pl + macSize ≤ s.inputBuffer.length)
    (hdec : xorFrom c.keystream c.pos (s.inputBuffer.take (4 + pl)) = dec)
    (hmac_ok : hmac s.crypto.decryptMacKey (beBytes s.crypto.decryptSeq.toNat 4 ++ dec) =
      (s.inputBuffer.take (4 + pl + macSize)).drop (4 + pl))
    (hpad : paddingLength dec + 2 ≤ pl) :
    processEncryptedFrame hmac s c pl = .ok (some (dec.getD 5 0, (dec.take (4 + pl - paddingLength dec)).drop 6),
      { s with
        crypto := { s.crypto with
          decryptCipher := some { c with pos := c.pos + (4 + pl) }
          decryptSeq := s.crypto.decryptSeq + 1 }
        inputBuffer := s.inputBuffer.drop (4 + pl + macSize) }) := by
  unfold processEncryptedFrame
  have hlen : (s.inputBuffer.take (4 + pl)).length = 4 + pl := by simp [macSize] at h ⊢; omega
  have hdlen : dec.length = 4 + pl := by rw [← hdec, length_xorFrom, hlen]
  rw [if_neg (by omega), slice_of_le (by omega) (by omega), ok_bind, slice_of_le (by omega) h,
    ok_bind, List.drop_zero]
  dsimp only
  -- the decrypted packet is `dec`, and its tag verifies
  have hdec' : (c.applyKeystream (s.inputBuffer.take (4 + pl))).1 = dec := hdec
  rw [hdec', if_neg (not_not.mpr hmac_ok)]
  simp only [paddingLength] at hpad ⊢
  rw [index_getD (by omega), ok_bind, checkedSub_of_le (by omega), ok_bind,
    checkedSub_of_le (by omega), ok_bind, if_neg (by omega), index_getD (by omega), ok_bind,
    slice_of_le (by omega) (by omega), ok_bind, sliceFrom_of_le (by omega), ok_bind, pure_eq]
  -- the payload ends where the padding starts
  have hend : 5 + (pl - (dec.getD 4 0).toNat - 1) = 4 + pl - (dec.getD 4 0).toNat := by omega
  rw [hend]
  simp [CtrCipher.applyKeystream, hlen]

/-- A complete packet whose tag does not verify is dropped, but the
session's cipher has already been run over the packet: the keystream
position has moved by `4 + packet_length`, so the next packet is
decrypted out of step. -/
theorem processEncryptedFrame_macFailure {c : CtrCipher} {pl : Nat}
    (h : 4 + pl + macSize ≤ s.inputBuffer.length)
    (hmac_bad : hmac s.crypto.decryptMacKey (beBytes s.crypto.decryptSeq.toNat 4 ++
        xorFrom c.keystream c.pos (s.inputBuffer.take (4 + pl))) ≠
      (s.inputBuffer.take (4 + pl + macSize)).drop (4 + pl)) :
    processEncryptedFrame hmac s c pl = .ok (none,
      { s with crypto := { s.crypto with
        decryptCipher := some ({ c with pos := c.pos + (4 + pl) }) } }) := by
  unfold processEncryptedFrame
  have hlen : (s.inputBuffer.take (4 + pl)).length = 4 + pl := by simp [macSize] at h ⊢; omega
  rw [if_neg (by omega), slice_of_le (by omega) (by omega), ok_bind, slice_of_le (by omega) h,
    ok_bind, List.drop_zero]
  dsimp only
  -- the condition of the tag check, with the keystream written out
  have hbad : hmac s.crypto.decryptMacKey (beBytes s.crypto.decryptSeq.toNat 4 ++
      (c.applyKeystream (s.inputBuffer.take (4 + pl))).1) ≠
      (s.inputBuffer.take (4 + pl + macSize)).drop (4 + pl) := hmac_bad
  rw [if_pos hbad, pure_eq]
  simp [CtrCipher.applyKeystream, hlen]

/-- `processEncryptedFrame_macFailure` for the whole decoder. -/
theorem processEncryptedPacket_macFailure {c : CtrCipher}
    (hc : s.crypto.decryptCipher = some c)
    (h : 4 + encPacketLength c s.inputBuffer + macSize ≤ s.inputBuffer.length)
    (hmac_bad : hmac s.crypto.decryptMacKey (beBytes s.crypto.decryptSeq.toNat 4 ++
        xorFrom c.keystream c.pos (s.inputBuffer.take (4 + encPacketLength c s.inputBuffer))) ≠
      (s.inputBuffer.take (4 + encPacketLength c s.inputBuffer + macSize)).drop
        (4 + encPacketLength c s.inputBuffer)) :
    processEncryptedPacket hmac s = .ok (none,
      { s with crypto := { s.crypto with
        decryptCipher := some ({ c with pos := c.pos + (4 + encPacketLength c s.inputBuffer) }) } }) := by
  rw [processEncryptedPacket_eq hmac hc (by simp [macSize] at h; omega)]
  exact processEncryptedFrame_macFailure hmac h hmac_bad

end Encrypted

end Akuma.Ssh
