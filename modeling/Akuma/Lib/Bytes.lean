import Mathlib

/-!
# Fixed-width byte codecs

Big- and little-endian encodings of natural numbers as byte strings of a
fixed width, with their round trips. Decoding is total on byte strings of
any length; encoding at width `k` keeps the value modulo `256 ^ k`, as a
cast to a `k`-byte machine integer does.
-/

namespace ByteCodec

/-- The big-endian value of a byte string. -/
def beNat (bs : List UInt8) : Nat :=
  bs.foldl (fun acc b => acc * 256 + b.toNat) 0

/-- The little-endian value of a byte string. -/
def leNat : List UInt8 → Nat
  | [] => 0
  | b :: bs => b.toNat + 256 * leNat bs

/-- The `k`-byte little-endian encoding of `n` (modulo `256 ^ k`). -/
def leBytes (n : Nat) : Nat → List UInt8
  | 0 => []
  | k + 1 => UInt8.ofNat n :: leBytes (n / 256) k

/-- The `k`-byte big-endian encoding of `n` (modulo `256 ^ k`). -/
def beBytes (n k : Nat) : List UInt8 :=
  (leBytes n k).reverse

@[simp] theorem leNat_nil : leNat [] = 0 := rfl

@[simp] theorem leNat_cons (b : UInt8) (bs : List UInt8) :
    leNat (b :: bs) = b.toNat + 256 * leNat bs := rfl

@[simp] theorem leBytes_zero (n : Nat) : leBytes n 0 = [] := rfl

@[simp] theorem leBytes_succ (n k : Nat) :
    leBytes n (k + 1) = UInt8.ofNat n :: leBytes (n / 256) k := rfl

@[simp] theorem length_leBytes (n k : Nat) : (leBytes n k).length = k := by
  induction k generalizing n with
  | zero => rfl
  | succ k ih => simp [ih]

@[simp] theorem length_beBytes (n k : Nat) : (beBytes n k).length = k := by
  simp [beBytes]

theorem beNat_append (xs ys : List UInt8) :
    beNat (xs ++ ys) = beNat xs * 256 ^ ys.length + beNat ys := by
  -- the fold over `ys` started from `beNat xs` shifts that start by `|ys|` bytes
  have shift : ∀ (ys : List UInt8) (acc : Nat),
      ys.foldl (fun acc b => acc * 256 + b.toNat) acc =
        acc * 256 ^ ys.length + ys.foldl (fun acc b => acc * 256 + b.toNat) 0 := by
    intro ys
    induction ys with
    | nil => simp
    | cons y ys ih =>
      intro acc
      simp only [List.foldl_cons, List.length_cons, zero_mul, zero_add]
      rw [ih, ih y.toNat, pow_succ]
      ring
  simp only [beNat, List.foldl_append]
  exact shift ys _

theorem beNat_reverse (bs : List UInt8) : beNat bs.reverse = leNat bs := by
  induction bs with
  | nil => rfl
  | cons b bs ih =>
    rw [List.reverse_cons, beNat_append, ih]
    simp [beNat]
    ring

theorem leNat_lt (bs : List UInt8) : leNat bs < 256 ^ bs.length := by
  induction bs with
  | nil => simp
  | cons b bs ih =>
    have hb : b.toNat < 256 := b.toNat_lt
    simp only [leNat_cons, List.length_cons, pow_succ]
    omega

theorem beNat_lt (bs : List UInt8) : beNat bs < 256 ^ bs.length := by
  simpa [← beNat_reverse, List.reverse_reverse] using leNat_lt bs.reverse

theorem leNat_leBytes (n k : Nat) : leNat (leBytes n k) = n % 256 ^ k := by
  induction k generalizing n with
  | zero => simp [Nat.mod_one]
  | succ k ih =>
    have byte : (UInt8.ofNat n).toNat = n % 256 := by simp
    simp only [leBytes_succ, leNat_cons, ih, byte, pow_succ]
    rw [Nat.mul_comm (256 ^ k) 256, Nat.mod_mul]

theorem beNat_beBytes (n k : Nat) : beNat (beBytes n k) = n % 256 ^ k := by
  rw [beBytes, beNat_reverse, leNat_leBytes]

theorem leBytes_leNat (bs : List UInt8) : leBytes (leNat bs) bs.length = bs := by
  induction bs with
  | nil => rfl
  | cons b bs ih =>
    have hb : b.toNat < 256 := b.toNat_lt
    have hdiv : (b.toNat + 256 * leNat bs) / 256 = leNat bs := by omega
    simp only [leNat_cons, List.length_cons, leBytes_succ, hdiv, ih]
    congr 1
    apply UInt8.toNat_inj.mp
    have byte : (UInt8.ofNat (b.toNat + 256 * leNat bs)).toNat =
        (b.toNat + 256 * leNat bs) % 256 := by simp
    rw [byte]
    omega

theorem beBytes_beNat (bs : List UInt8) : beBytes (beNat bs) bs.length = bs := by
  rw [← List.reverse_reverse bs, beNat_reverse, List.length_reverse, beBytes, leBytes_leNat]

end ByteCodec
