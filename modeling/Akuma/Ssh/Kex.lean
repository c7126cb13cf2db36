import Akuma.Lib.Bytes

/-!
# The shared secret in the key exchange

`handle_kex_ecdh_init` (`crates/akuma-ssh/src/kex.rs`) feeds the X25519
shared secret K into `hash_data`, whose SHA-256 is the exchange hash H.
`derive_key` (`crates/akuma-ssh-crypto/src/crypto.rs`) feeds K into every
derived key. Both write K out by hand, in the same way: a length and then
the bytes of K, with a `0x00` in front when the first byte has its high bit
set. RFC 4251 asks for the mpint of K read as an unsigned number, with its
leading zero bytes removed first. The two agree unless K starts with a zero
byte followed by a byte below `0x80`.

SHA-256 is outside the repository. It is a parameter `sha256`: the hash of
the bytes passed to the hasher's updates, in order.
-/

namespace Akuma.Ssh

open ByteCodec

/-- `write_string`: a `u32` length, then the bytes. -/
def writeString (s : List UInt8) : List UInt8 := beBytes s.length 4 ++ s

/-- K as `handle_kex_ecdh_init` and `derive_key` both write it. -/
def kMpint (k : List UInt8) : List UInt8 :=
  if k ≠ [] ∧ k.headD 0 &&& 0x80 ≠ 0 then beBytes (k.length + 1) 4 ++ 0 :: k
  else beBytes k.length 4 ++ k

/-- RFC 4251 `mpint` of `k` read as an unsigned big-endian number: leading
zero bytes removed, one `0x00` put back when the first byte left has its
high bit set, and zero written with length 0. -/
def mpint (k : List UInt8) : List UInt8 :=
  let v := k.dropWhile (· == 0)
  let body := if v.headD 0 &&& 0x80 ≠ 0 then 0 :: v else v
  beBytes body.length 4 ++ body

/-- The strings `handle_kex_ecdh_init` writes into `hash_data` before K. -/
structure ExchangeInputs where
  clientVersion : List UInt8
  serverVersion : List UInt8
  clientKexinit : List UInt8
  serverKexinit : List UInt8
  hostKeyBlob : List UInt8
  clientPubkey : List UInt8
  serverPubkey : List UInt8

/-- The part of `hash_data` before K. -/
def ExchangeInputs.strings (e : ExchangeInputs) : List UInt8 :=
  writeString e.clientVersion ++ writeString e.serverVersion ++ writeString e.clientKexinit ++
    writeString e.serverKexinit ++ writeString e.hostKeyBlob ++ writeString e.clientPubkey ++
    writeString e.serverPubkey

/-- `hash_data` of `handle_kex_ecdh_init`: its SHA-256 is H. -/
def exchangeHashData (e : ExchangeInputs) (sharedSecret : List UInt8) : List UInt8 :=
  e.strings ++ kMpint sharedSecret

section DeriveKey

variable (sha256 : List UInt8 → List UInt8)

/-- The `while result.len() < size` loop of `derive_key`. Every round
lengthens `result` by a hash, so `size` rounds are always enough. -/
def deriveKeyLoop (kEnc h : List UInt8) (size : Nat) : Nat → List UInt8 → List UInt8
  | 0, result => result
  | fuel + 1, result =>
    if result.length < size then deriveKeyLoop kEnc h size fuel (result ++ sha256 (kEnc ++ h ++ result))
    else result

/-- `derive_key`. -/
def deriveKey (k h : List UInt8) (letter : UInt8) (sessionId : List UInt8) (size : Nat) : List UInt8 :=
  (deriveKeyLoop sha256 (kMpint k) h size size (sha256 (kMpint k ++ h ++ letter :: sessionId))).take size

/-- RFC 4253 section 7.2 with K written as `kEnc`:
`K1 = HASH(K || H || X || session_id)` and
`K(i+1) = HASH(K || H || K1 || ... || Ki)`. `rfcKeyBlocks … i` is
`K1 || ... || K(i+1)`. -/
def rfcKeyBlocks (kEnc h : List UInt8) (x : UInt8) (sessionId : List UInt8) : Nat → List UInt8
  | 0 => sha256 (kEnc ++ h ++ x :: sessionId)
  | i + 1 =>
    rfcKeyBlocks kEnc h x sessionId i ++ sha256 (kEnc ++ h ++ rfcKeyBlocks kEnc h x sessionId i)

variable {sha256} (hsha : ∀ m, (sha256 m).length = 32) (kEnc h : List UInt8) (x : UInt8)
  (sessionId : List UInt8)
include hsha

theorem length_rfcKeyBlocks (i : Nat) :
    (rfcKeyBlocks sha256 kEnc h x sessionId i).length = 32 * (i + 1) := by
  induction i with
  | zero => simp [rfcKeyBlocks, hsha]
  | succ i ih =>
    simp only [rfcKeyBlocks, List.length_append, ih, hsha]
    ring

omit hsha in
theorem rfcKeyBlocks_prefix {i j : Nat} (hij : i ≤ j) :
    rfcKeyBlocks sha256 kEnc h x sessionId i <+: rfcKeyBlocks sha256 kEnc h x sessionId j := by
  induction hij with
  | refl => exact List.prefix_refl _
  | step _ ih => exact ih.trans (List.prefix_append _ _)

/-- The loop, started on `K1 || ... || K(j+1)`, stops on such a prefix that
is at least `size` bytes long. -/
theorem deriveKeyLoop_rfcKeyBlocks (size : Nat) :
    ∀ fuel j, size ≤ 32 * (j + 1 + fuel) →
      ∃ j', size ≤ (rfcKeyBlocks sha256 kEnc h x sessionId j').length ∧
        deriveKeyLoop sha256 kEnc h size fuel (rfcKeyBlocks sha256 kEnc h x sessionId j) =
          rfcKeyBlocks sha256 kEnc h x sessionId j' := by
  intro fuel
  induction fuel with
  | zero =>
    intro j hj
    exact ⟨j, by rw [length_rfcKeyBlocks hsha]; omega, rfl⟩
  | succ fuel ih =>
    intro j hj
    by_cases hlt : (rfcKeyBlocks sha256 kEnc h x sessionId j).length < size
    · -- one more block: the loop goes on from `K1 || ... || K(j+2)`
      rw [deriveKeyLoop, if_pos hlt]
      exact ih (j + 1) (by omega)
    · rw [deriveKeyLoop, if_neg hlt]
      exact ⟨j, by omega, rfl⟩

/-- `derive_key` returns the first `size` bytes of `K1 || K2 || ...`, with K
written as the code writes it. -/
theorem deriveKey_eq_rfcKeyBlocks (k : List UInt8) (size m : Nat) (hm : size ≤ 32 * (m + 1)) :
    deriveKey sha256 k h x sessionId size = (rfcKeyBlocks sha256 (kMpint k) h x sessionId m).take size := by
  obtain ⟨j, hj, hloop⟩ := deriveKeyLoop_rfcKeyBlocks hsha (kMpint k) h x sessionId size size 0 (by omega)
  have hj' : rfcKeyBlocks sha256 (kMpint k) h x sessionId j <+:
      rfcKeyBlocks sha256 (kMpint k) h x sessionId (max j m) := rfcKeyBlocks_prefix _ _ _ _ (le_max_left j m)
  have hm' : rfcKeyBlocks sha256 (kMpint k) h x sessionId m <+:
      rfcKeyBlocks sha256 (kMpint k) h x sessionId (max j m) := rfcKeyBlocks_prefix _ _ _ _ (le_max_right j m)
  have hlen := length_rfcKeyBlocks hsha (kMpint k) h x sessionId m
  -- both are prefixes of one longer run of blocks, and long enough
  rw [deriveKey, show sha256 (kMpint k ++ h ++ x :: sessionId) = rfcKeyBlocks sha256 (kMpint k) h x sessionId 0 from rfl,
    hloop, List.prefix_iff_eq_take.mp hj', List.prefix_iff_eq_take.mp hm', List.take_take, List.take_take,
    Nat.min_eq_left hj, Nat.min_eq_left (by omega)]

end DeriveKey

/-- A 40-byte key from a 32-byte hash takes a second block. -/
theorem deriveKey_eq_rfcKeyBlocks_on_two_blocks :
    (∀ m : List UInt8, (List.replicate 32 (UInt8.ofNat m.length)).length = 32) ∧ 40 ≤ 32 * (1 + 1) ∧
      deriveKey (fun m => List.replicate 32 (UInt8.ofNat m.length)) [0x80, 7] [1, 2] 0x43 [3] 40 =
        (rfcKeyBlocks (fun m => List.replicate 32 (UInt8.ofNat m.length)) (kMpint [0x80, 7]) [1, 2] 0x43
          [3] 1).take 40 :=
  have hsha : ∀ m : List UInt8, (List.replicate 32 (UInt8.ofNat m.length)).length = 32 :=
    fun _ => List.length_replicate
  ⟨hsha, by norm_num, deriveKey_eq_rfcKeyBlocks hsha [1, 2] 0x43 [3] [0x80, 7] 40 1 (by norm_num)⟩


/-! ## The code's K against the mpint -/

/-- Where `dropWhile` stops, the byte is not zero. -/
theorem head_dropWhile_ne_zero :
    ∀ {r : List UInt8} {b : UInt8} {v : List UInt8}, r.dropWhile (· == 0) = b :: v → b ≠ 0
  | [], _, _, h => by simp at h
  | a :: as, b, v, h => by
    rw [List.dropWhile_cons] at h
    split at h
    · exact head_dropWhile_ne_zero h
    · rename_i ha
      cases h
      simpa using ha

/-- The code writes K as its mpint exactly when K does not start with a zero
byte followed by a byte whose high bit is clear. -/
theorem kMpint_eq_mpint_iff (k : List UInt8) :
    kMpint k = mpint k ↔ ∀ r, k = 0 :: r → ∃ b r', r = b :: r' ∧ b &&& 0x80 ≠ 0 := by
  cases k with
  | nil => exact iff_of_true (by decide) (fun r hr => by cases hr)
  | cons b rest =>
    by_cases hb : b = 0
    · subst hb
      have hk : kMpint (0 :: rest) = beBytes (rest.length + 1) 4 ++ 0 :: rest := by simp [kMpint]
      have hv : (0 :: rest).dropWhile (· == 0) = rest.dropWhile (· == 0) := by simp
      constructor
      · intro heq r hr
        cases hr
        rw [hk, mpint, hv] at heq
        -- the bytes after the length field
        have hbody := (List.append_inj heq (by simp)).2
        split at hbody
        · rename_i hhi
          -- the mpint put a zero back in front: nothing was stripped
          have hrest : rest = rest.dropWhile (· == 0) := (List.cons.inj hbody).2
          cases rest with
          | nil => simp at hhi
          | cons c r' =>
            rw [← hrest] at hhi
            exact ⟨c, r', rfl, by simpa using hhi⟩
        · -- the mpint would start with a zero byte
          exact absurd (head_dropWhile_ne_zero hbody.symm) (by simp)
      · intro h
        obtain ⟨c, r', rfl, hc⟩ := h rest rfl
        have hc0 : c ≠ 0 := by
          rintro rfl
          exact hc (by decide)
        have hv' : (c :: r').dropWhile (· == 0) = c :: r' := by simp [hc0]
        rw [hk, mpint, hv, hv']
        simp [hc]
    · -- a first byte that is not zero: nothing is stripped
      have hv : (b :: rest).dropWhile (· == 0) = b :: rest := by simp [hb]
      refine iff_of_true ?_ (fun r hr => absurd (List.cons.inj hr).1 hb)
      rw [kMpint, mpint, hv]
      by_cases hhi : b &&& 0x80 = 0 <;> simp [hhi]

/-- A secret that starts with `00 01`. The code writes it with its leading
zero and length 32, where the mpint has length 31 and no leading zero. So H
and every derived key are hashed over other bytes than a conforming peer's. -/
theorem zero_led_secret_written_unstripped :
    (let k : List UInt8 := 0 :: 1 :: List.replicate 30 0
     k.length = 32 ∧ kMpint k = beBytes 32 4 ++ k ∧ mpint k = beBytes 31 4 ++ k.tail ∧
       (∀ e : ExchangeInputs, exchangeHashData e k ≠ e.strings ++ mpint k) ∧
       ∀ (sha256 : List UInt8 → List UInt8) (h sessionId : List UInt8) (x : UInt8) (n : Nat),
         (∀ m, (sha256 m).length = 32) → n ≤ 32 →
         deriveKey sha256 k h x sessionId n = (sha256 (kMpint k ++ h ++ x :: sessionId)).take n ∧
           kMpint k ++ h ++ x :: sessionId ≠ mpint k ++ h ++ x :: sessionId) := by
  intro k
  have hne : kMpint k ≠ mpint k := by decide
  refine ⟨rfl, by decide, by decide, fun e heq => hne (List.append_cancel_left heq), ?_⟩
  intro sha256 h sessionId x n hsha hn
  refine ⟨deriveKey_eq_rfcKeyBlocks hsha h x sessionId k n 0 (by omega), fun heq => hne ?_⟩
  -- the hashed messages differ in the encoding of K alone
  exact List.append_cancel_right (List.append_cancel_right heq)

end Akuma.Ssh
