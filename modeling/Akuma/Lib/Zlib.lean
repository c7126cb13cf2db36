import Mathlib

/-!
# Zlib streams of stored blocks

A zlib stream (RFC 1950) is a two-byte header, a deflate stream (RFC 1951)
and the Adler-32 of the inflated bytes, most significant byte first. The
first header byte names the method (8, deflate) and the window, the second
holds the flags: read as one big-endian number the two are a multiple of
31, and bit 5 of the second asks for a preset dictionary. A deflate stream
is a run of blocks. Bit 0 of a block's first byte marks the last block, and
bits 1 and 2 give its type. A stored block (type 0) skips to the next byte
boundary, then holds LEN and its complement NLEN, both little-endian, then
LEN bytes as they are.

`compressStored` writes what a deflater at level 0 writes: the header
`0x78 0x01`, the content in stored blocks of at most 65535 bytes, and the
checksum. `inflate` reads a zlib stream with the checks of miniz_oxide's
inflater (header, NLEN, checksum) and returns the content and how many
bytes the stream took. Of the block types it reads stored blocks only, and
fails on a compressed one, which miniz_oxide would decode.

`inflate` reads back what `compressStored` writes, whatever follows
(`inflate_compressStored`). It never counts more bytes than it was given
(`inflate_consumed_le`), and bytes after the end of the stream change
nothing (`inflate_append`).
-/

namespace Zlib

/-! ## Adler-32 -/

/-- The modulus of Adler-32, the largest prime below `2 ^ 16`. -/
def adlerBase : Nat := 65521

/-- One byte into the two sums of Adler-32. -/
def adlerStep (ab : Nat × Nat) (byte : Nat) : Nat × Nat :=
  let a := (ab.1 + byte) % adlerBase
  (a, (ab.2 + a) % adlerBase)

/-- Adler-32 (RFC 1950 §8.2): `a` is one plus the sum of the bytes, `b` the
sum of the successive values of `a`, both modulo 65521. -/
def adler32 (bytes : List Nat) : Nat :=
  let ab := bytes.foldl adlerStep (1, 0)
  ab.2 * 65536 + ab.1

example : adler32 [0x61, 0x62, 0x63] = 0x024d0127 := by decide

theorem adler32_lt (bytes : List Nat) : adler32 bytes < 2 ^ 32 := by
  have hlt : ∀ ab : Nat × Nat, ab.1 < adlerBase → ab.2 < adlerBase →
      ∀ l : List Nat, (l.foldl adlerStep ab).1 < adlerBase ∧ (l.foldl adlerStep ab).2 < adlerBase := by
    intro ab h1 h2 l
    induction l generalizing ab with
    | nil => exact ⟨h1, h2⟩
    | cons x l ih => exact ih _ (Nat.mod_lt _ (by decide)) (Nat.mod_lt _ (by decide))
  obtain ⟨ha, hb⟩ := hlt (1, 0) (by decide) (by decide) bytes
  simp only [adler32, adlerBase] at ha hb ⊢
  omega

/-! ## Four bytes, most significant first -/

/-- A number below `2 ^ 32` as four bytes, most significant first. -/
def be32 (n : Nat) : List Nat := [n / 16777216 % 256, n / 65536 % 256, n / 256 % 256, n % 256]

/-- Four bytes off the front of `bytes`, read most significant first. -/
def takeBe32 : List Nat → Option (Nat × List Nat)
  | b0 :: b1 :: b2 :: b3 :: rest => some (((b0 * 256 + b1) * 256 + b2) * 256 + b3, rest)
  | _ => none

theorem takeBe32_be32 {n : Nat} (h : n < 2 ^ 32) (rest : List Nat) : takeBe32 (be32 n ++ rest) = some (n, rest) := by
  simp only [be32, List.cons_append, List.nil_append, takeBe32, Option.some.injEq, Prod.mk.injEq, and_true]
  omega

theorem takeBe32_append {bytes rest : List Nat} {n : Nat} (h : takeBe32 bytes = some (n, rest)) (more : List Nat) :
    takeBe32 (bytes ++ more) = some (n, rest ++ more) := by
  match bytes, h with
  | _ :: _ :: _ :: _ :: _, h =>
    simp only [takeBe32, Option.some.injEq, Prod.mk.injEq] at h
    obtain ⟨rfl, rfl⟩ := h
    rfl

/-! ## Stored blocks -/

/-- The most bytes a stored block holds: LEN is sixteen bits. -/
def maxStored : Nat := 65535

/-- A stored block of `chunk`, the last one if `final`: the block header in
a byte of its own, LEN and NLEN, then the chunk. -/
def storedBlock (final : Bool) (chunk : List Nat) : List Nat :=
  (if final then 1 else 0) :: chunk.length % 256 :: chunk.length / 256 ::
    (maxStored - chunk.length) % 256 :: (maxStored - chunk.length) / 256 :: chunk

/-- `content` as `n` full stored blocks, then a last one with the rest. -/
def storedBlocks : Nat → List Nat → List Nat
  | 0, content => storedBlock true content
  | n + 1, content => storedBlock false (content.take maxStored) ++ storedBlocks n (content.drop maxStored)

/-- The zlib stream a deflater at level 0 writes for `content`. -/
def compressStored (content : List Nat) : List Nat :=
  [0x78, 0x01] ++ storedBlocks ((content.length - 1) / maxStored) content ++ be32 (adler32 content)

example : compressStored [0x61] = [0x78, 0x01, 1, 1, 0, 0xfe, 0xff, 0x61, 0, 0x62, 0, 0x62] := by decide

/-- The header of a stored block off the front of `bytes`: whether it is
the last block, LEN, and the bytes after NLEN. There is none for a
compressed block, an NLEN that is not LEN's complement, or fewer than five
bytes. -/
def storedHeader : List Nat → Option (Bool × Nat × List Nat)
  | hdr :: l0 :: l1 :: n0 :: n1 :: rest =>
    if hdr / 2 % 4 = 0 ∧ l0 + 256 * l1 + (n0 + 256 * n1) = maxStored then
      some (hdr % 2 == 1, l0 + 256 * l1, rest)
    else none
  | _ => none

/-- The blocks of a deflate stream off the front of `bytes`, after `out`
inflated so far: the content and the bytes after the last block. The fuel
bounds the number of blocks. -/
def inflateBlocks : Nat → List Nat → List Nat → Option (List Nat × List Nat)
  | 0, _, _ => none
  | fuel + 1, bytes, out =>
    match storedHeader bytes with
    | none => none
    | some (final, len, rest) =>
      if rest.length < len then none
      else if final then some (out ++ rest.take len, rest.drop len)
      else inflateBlocks fuel (rest.drop len) (out ++ rest.take len)

/-- miniz_oxide's header check: method 8, a window of at most 32 KiB, no
preset dictionary, and the check bits. -/
def headerOk (cmf flg : Nat) : Bool :=
  cmf % 16 == 8 && cmf / 16 ≤ 7 && flg / 32 % 2 == 0 && (cmf * 256 + flg) % 31 == 0

/-- A zlib stream off the front of `bytes`: the content, and how many bytes
the stream took. Each block takes at least five bytes, so as many blocks as
there are bytes is fuel enough. -/
def inflate : List Nat → Option (List Nat × Nat)
  | cmf :: flg :: body =>
    if headerOk cmf flg then
      match inflateBlocks body.length body [] with
      | none => none
      | some (content, after) =>
        match takeBe32 after with
        | none => none
        | some (check, rest) => if check = adler32 content then some (content, body.length + 2 - rest.length) else none
    else none
  | _ => none

example : inflate [0x78, 0x01, 1, 3, 0, 0xfc, 0xff, 0x61, 0x62, 0x63, 0x02, 0x4d, 0x01, 0x27, 0x50] =
    some ([0x61, 0x62, 0x63], 14) := by decide

/-! ## Reading back what was written -/

theorem storedHeader_storedBlock (final : Bool) {chunk : List Nat} (h : chunk.length ≤ maxStored) (rest : List Nat) :
    storedHeader (storedBlock final chunk ++ rest) = some (final, chunk.length, chunk ++ rest) := by
  have hlen : chunk.length % 256 + 256 * (chunk.length / 256) = chunk.length := by omega
  have hnlen : chunk.length + ((maxStored - chunk.length) % 256 + 256 * ((maxStored - chunk.length) / 256)) =
      maxStored := by omega
  have htype : (if final then 1 else 0) / 2 % 4 = 0 := by cases final <;> rfl
  have hfinal : ((if final then 1 else 0) % 2 == 1) = final := by cases final <;> rfl
  simp only [storedBlock, List.cons_append, storedHeader, hlen, hnlen, htype, hfinal, and_self, if_true]

/-- One stored block read: the last one ends the stream, any other leaves
the rest to the next block. -/
theorem inflateBlocks_storedBlock (final : Bool) {chunk : List Nat} (h : chunk.length ≤ maxStored)
    (fuel : Nat) (rest out : List Nat) :
    inflateBlocks (fuel + 1) (storedBlock final chunk ++ rest) out =
      if final then some (out ++ chunk, rest) else inflateBlocks fuel rest (out ++ chunk) := by
  simp only [inflateBlocks, storedHeader_storedBlock final h, List.length_append, List.take_left',
    List.drop_left', show ¬ chunk.length + rest.length < chunk.length by omega, if_false]

/-- The blocks `storedBlocks n` writes read back to their content, by
induction on the number of full blocks. -/
theorem inflateBlocks_storedBlocks (n : Nat) :
    ∀ {content : List Nat}, content.length ≤ (n + 1) * maxStored → ∀ {fuel : Nat}, n < fuel →
      ∀ rest out, inflateBlocks fuel (storedBlocks n content ++ rest) out = some (out ++ content, rest) := by
  induction n with
  | zero =>
    intro content hlen fuel hfuel rest out
    obtain ⟨fuel, rfl⟩ : ∃ f, fuel = f + 1 := ⟨fuel - 1, by omega⟩
    rw [storedBlocks, inflateBlocks_storedBlock true (by omega), if_pos rfl]
  | succ n ih =>
    intro content hlen fuel hfuel rest out
    obtain ⟨fuel, rfl⟩ : ∃ f, fuel = f + 1 := ⟨fuel - 1, by omega⟩
    have hchunk : (content.take maxStored).length ≤ maxStored := List.length_take_le _ _
    have hdrop : (content.drop maxStored).length ≤ (n + 1) * maxStored := by
      simp only [List.length_drop]
      rw [Nat.add_one_mul] at hlen
      omega
    rw [storedBlocks, List.append_assoc, inflateBlocks_storedBlock false hchunk, if_neg Bool.false_ne_true,
      ih hdrop (by omega), List.append_assoc, List.take_append_drop]

theorem storedBlocks_length_gt (n : Nat) (content : List Nat) : n < (storedBlocks n content).length := by
  induction n generalizing content with
  | zero => simp [storedBlocks, storedBlock]
  | succ n ih =>
    have := ih (content.drop maxStored)
    simp only [storedBlocks, storedBlock, List.length_append, List.length_cons]
    omega

/-- A stream `compressStored` writes inflates back to its content and takes
exactly its own bytes, whatever follows it. -/
theorem inflate_compressStored (content rest : List Nat) :
    inflate (compressStored content ++ rest) = some (content, (compressStored content).length) := by
  have hlen : content.length ≤ ((content.length - 1) / maxStored + 1) * maxStored := by
    simp only [maxStored]
    omega
  simp only [compressStored]
  generalize (content.length - 1) / maxStored = n at hlen ⊢
  have hfuel : n < (storedBlocks n content ++ (be32 (adler32 content) ++ rest)).length := by
    have := storedBlocks_length_gt n content
    simp only [List.length_append]
    omega
  have hblocks := inflateBlocks_storedBlocks n hlen hfuel (be32 (adler32 content) ++ rest) []
  simp only [List.append_assoc, List.cons_append, List.nil_append, inflate]
  rw [if_pos (show headerOk 0x78 0x01 = true from rfl), hblocks]
  dsimp only
  rw [takeBe32_be32 (adler32_lt content)]
  dsimp only
  rw [List.nil_append, if_pos rfl]
  simp only [List.length_append, List.length_cons, Option.some.injEq, Prod.mk.injEq, true_and]
  omega

/-! ## The end of a stream -/

theorem storedHeader_append {bytes rest : List Nat} {final : Bool} {len : Nat}
    (h : storedHeader bytes = some (final, len, rest)) (more : List Nat) :
    storedHeader (bytes ++ more) = some (final, len, rest ++ more) := by
  match bytes, h with
  | _ :: _ :: _ :: _ :: _ :: _, h =>
    simp only [List.cons_append, storedHeader] at h ⊢
    split_ifs at h ⊢
    simp only [Option.some.injEq, Prod.mk.injEq] at h
    obtain ⟨rfl, rfl, rfl⟩ := h
    rfl

/-- Bytes after the last block are left as they are, and more fuel changes
nothing; by induction on the fuel. -/
theorem inflateBlocks_append {fuel : Nat} {bytes out content after : List Nat}
    (h : inflateBlocks fuel bytes out = some (content, after)) (more : List Nat) {fuel' : Nat} (hfuel : fuel ≤ fuel') :
    inflateBlocks fuel' (bytes ++ more) out = some (content, after ++ more) := by
  induction fuel generalizing bytes out fuel' with
  | zero => simp [inflateBlocks] at h
  | succ fuel ih =>
    obtain ⟨fuel', rfl⟩ : ∃ f, fuel' = f + 1 := ⟨fuel' - 1, by omega⟩
    simp only [inflateBlocks] at h ⊢
    cases hhdr : storedHeader bytes with
    | none => simp [hhdr] at h
    | some r =>
      obtain ⟨final, len, rest⟩ := r
      rw [hhdr] at h
      rw [storedHeader_append hhdr more]
      dsimp only at h ⊢
      split_ifs at h with hshort hfinal
      · have hle : len ≤ rest.length := by omega
        simp only [Option.some.injEq, Prod.mk.injEq] at h
        obtain ⟨rfl, rfl⟩ := h
        rw [if_neg (by simp only [List.length_append]; omega), if_pos hfinal,
          List.take_append_of_le_length hle, List.drop_append_of_le_length hle]
      · have hle : len ≤ rest.length := by omega
        rw [if_neg (by simp only [List.length_append]; omega), if_neg hfinal,
          List.take_append_of_le_length hle, List.drop_append_of_le_length hle]
        exact ih h (by omega)

/-- The count a stream reports is at most the bytes it was given. -/
theorem inflate_consumed_le {bytes : List Nat} {r : List Nat × Nat} (h : inflate bytes = some r) :
    r.2 ≤ bytes.length := by
  match bytes, h with
  | cmf :: flg :: body, h =>
    simp only [inflate] at h
    split_ifs at h
    split at h
    · cases h
    · split at h
      · cases h
      · split_ifs at h
        cases h
        simp only [List.length_cons]
        omega

/-- A stream read from the front of `bytes` reads the same with more bytes
after it. -/
theorem inflate_append {bytes : List Nat} {r : List Nat × Nat} (h : inflate bytes = some r) (more : List Nat) :
    inflate (bytes ++ more) = some r := by
  match bytes, h with
  | cmf :: flg :: body, h =>
    simp only [inflate] at h
    simp only [List.cons_append, inflate]
    split_ifs at h with hhdr
    rw [if_pos hhdr]
    cases hblocks : inflateBlocks body.length body [] with
    | none => simp [hblocks] at h
    | some p =>
      obtain ⟨content, after⟩ := p
      rw [hblocks] at h
      rw [inflateBlocks_append hblocks more (by simp)]
      dsimp only at h ⊢
      cases htrail : takeBe32 after with
      | none => simp [htrail] at h
      | some q =>
        obtain ⟨check, rest⟩ := q
        rw [htrail] at h
        rw [takeBe32_append htrail more]
        dsimp only at h ⊢
        split_ifs at h with hcheck
        rw [if_pos hcheck, ← h]
        simp only [List.length_append, Option.some.injEq, Prod.mk.injEq, true_and]
        omega

end Zlib
