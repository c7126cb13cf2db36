import Mathlib

/-!
# SHA-1

SHA-1 (FIPS 180-4, §5.1.1 and §6.1) over bytes. Words are numbers below
`2 ^ 32`, and every sum is taken modulo `2 ^ 32`, as the wrapping `u32`
additions of an implementation compute it. The message is padded with a
one bit, zeros and its length in bits to a multiple of 64 bytes. Each block
of 64 bytes is mixed into five words through eighty rounds, and the digest
is the five words, most significant byte first.
-/

namespace Sha1

/-- `x` rotated left by `k` bits in a 32-bit word. -/
def rotl (k x : Nat) : Nat := (x <<< k ||| x >>> (32 - k)) % 2 ^ 32

/-- The logical function of round `t` (§4.1.1): choose, parity, majority,
parity. -/
def f (t b c d : Nat) : Nat :=
  if t < 20 then (b &&& c) ^^^ ((2 ^ 32 - 1 - b) &&& d)
  else if t < 40 then b ^^^ c ^^^ d
  else if t < 60 then (b &&& c) ^^^ (b &&& d) ^^^ (c &&& d)
  else b ^^^ c ^^^ d

/-- The constant of round `t` (§4.2.1). -/
def k (t : Nat) : Nat :=
  if t < 20 then 0x5A827999
  else if t < 40 then 0x6ED9EBA1
  else if t < 60 then 0x8F1BBCDC
  else 0xCA62C1D6

/-- Five words: the hash value, or the working variables of the rounds. -/
structure Words where
  a : Nat
  b : Nat
  c : Nat
  d : Nat
  e : Nat

/-- The initial hash value (§5.3.1). -/
def init : Words := ⟨0x67452301, 0xEFCDAB89, 0x98BADCFE, 0x10325476, 0xC3D2E1F0⟩

/-- The low `len` bytes of `n`, most significant first. -/
def beBytes (len n : Nat) : List Nat := (List.range len).reverse.map fun i => n / 256 ^ i % 256

/-- The padded message (§5.1.1): a one bit, zeros, and the length in bits as
eight bytes, to a multiple of 64 bytes. -/
def pad (msg : List Nat) : List Nat :=
  msg ++ 0x80 :: List.replicate ((119 - msg.length % 64) % 64) 0 ++ beBytes 8 (8 * msg.length)

/-- Bytes as big-endian words. -/
def words : List Nat → List Nat
  | b0 :: b1 :: b2 :: b3 :: rest => (((b0 * 256 + b1) * 256 + b2) * 256 + b3) :: words rest
  | _ => []

/-- The message schedule (§6.1.2, step 1): `n` more words after `w`, each
the XOR of four before it, rotated by one. -/
def schedule : Nat → List Nat → List Nat
  | 0, w => w
  | n + 1, w =>
    schedule n (w ++ [rotl 1 (w.getD (w.length - 3) 0 ^^^ w.getD (w.length - 8) 0 ^^^
      w.getD (w.length - 14) 0 ^^^ w.getD (w.length - 16) 0)])

/-- Round `t` of the working variables, with schedule word `w`
(§6.1.2, step 3). -/
def round (v : Words) (tw : Nat × Nat) : Words :=
  ⟨(rotl 5 v.a + f tw.1 v.b v.c v.d + v.e + k tw.1 + tw.2) % 2 ^ 32, v.a, rotl 30 v.b, v.c, v.d⟩

/-- One block into the hash value (§6.1.2). -/
def compress (h : Words) (block : List Nat) : Words :=
  let v := ((List.range 80).zip (schedule 64 (words block))).foldl round h
  ⟨(h.a + v.a) % 2 ^ 32, (h.b + v.b) % 2 ^ 32, (h.c + v.c) % 2 ^ 32, (h.d + v.d) % 2 ^ 32,
    (h.e + v.e) % 2 ^ 32⟩

/-- The first `n` blocks of `bytes` into the hash value. -/
def compressBlocks : Nat → Words → List Nat → Words
  | 0, h, _ => h
  | n + 1, h, bytes => compressBlocks n (compress h (bytes.take 64)) (bytes.drop 64)

/-- The SHA-1 digest of `msg`: twenty bytes. -/
def digest (msg : List Nat) : List Nat :=
  let h := compressBlocks ((pad msg).length / 64) init (pad msg)
  [h.a, h.b, h.c, h.d, h.e].flatMap (beBytes 4)

example : digest [0x61, 0x62, 0x63] =
    [0xa9, 0x99, 0x3e, 0x36, 0x47, 0x06, 0x81, 0x6a, 0xba, 0x3e, 0x25, 0x71, 0x78, 0x50, 0xc2, 0x6c, 0x9c, 0xd0,
      0xd8, 0x9d] := by
  decide +kernel

end Sha1
