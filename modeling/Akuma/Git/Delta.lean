import Akuma.Lib.Panic

/-!
# Git deltas

`apply_delta`, `parse_delta_size` and `parse_copy_instruction` of the git
client in `userspace/scratch/src/pack.rs`. A delta is the varint size of the
base, the varint size of the result, then instructions: a command byte with
the high bit set copies a range of the base, whose offset and size bytes the
low seven bits select; any other non-zero command inserts that many literal
bytes of the delta.

Indexing and slicing go through `Panicking`, so the model tells a panic from
an `Err`: a computation is an `Except Panic` of the function's `Result`,
whose errors are their messages. Bytes are `Nat`s below 256 and `usize` is
64 bits wide. The userspace release build has no overflow checks, so a
shift by 64 or more is masked to its low six bits, and the result wraps.

`parse_copy_instruction` reads each selected byte with `data[pos]` and no
check of the length: a delta that ends right after a copy command panics
(`truncated_copy_panics`).
-/

namespace Akuma.Git

open Panicking

/-! ## Sizes -/

/-- `a << s` on `usize` in a build without overflow checks. -/
def shlUsize (a s : Nat) : Nat := (a <<< (s % 64)) % 2 ^ 64

/-- The loop of `parse_delta_size` over the bytes left: the size so far,
the shift and the bytes read. -/
def parseDeltaSizeLoop : List Nat → (size shift pos : Nat) → Except String (Nat × Nat)
  | [], _, _, _ => .error "truncated delta size"
  | byte :: rest, size, shift, pos =>
    let size := size ||| shlUsize (byte &&& 0x7f) shift
    if byte &&& 0x80 = 0 then .ok (size, pos + 1)
    else parseDeltaSizeLoop rest size (shift + 7) (pos + 1)

/-- `parse_delta_size`: the size and the bytes it took. -/
def parseDeltaSize (data : List Nat) : Except String (Nat × Nat) := parseDeltaSizeLoop data 0 0 0

/-! ## Instructions -/

/-- One optional byte of a copy instruction: when `bit` is set in `cmd`,
`data[pos]` shifted left by `shift` is or-ed into the field. -/
def copyField (cmd bit shift : Nat) (data : List Nat) (acc : Nat × Nat) : Except Panic (Nat × Nat) :=
  if cmd &&& bit ≠ 0 then do
    let b ← index data acc.2
    pure (acc.1 ||| (b <<< shift), acc.2 + 1)
  else pure acc

/-- `parse_copy_instruction`: the offset, the size and the bytes read. Its
`Result` is never an `Err`, and is left out. -/
def parseCopyInstruction (cmd : Nat) (data : List Nat) : Except Panic (Nat × Nat × Nat) := do
  let (offset, pos) ← copyField cmd 0x01 0 data (0, 0)
  let (offset, pos) ← copyField cmd 0x02 8 data (offset, pos)
  let (offset, pos) ← copyField cmd 0x04 16 data (offset, pos)
  let (offset, pos) ← copyField cmd 0x08 24 data (offset, pos)
  let (size, pos) ← copyField cmd 0x10 0 data (0, pos)
  let (size, pos) ← copyField cmd 0x20 8 data (size, pos)
  let (size, pos) ← copyField cmd 0x40 16 data (size, pos)
  -- a size of 0 means 0x10000
  let size := if size = 0 then 0x10000 else size
  pure (offset, size, pos)

/-- The instruction loop of `apply_delta`, from `pos` on, with the output
so far. -/
def applyDeltaLoop (base delta : List Nat) (pos : Nat) (result : List Nat) :
    Except Panic (Except String (List Nat)) :=
  if h : pos < delta.length then
    let cmd := delta[pos]
    let pos := pos + 1
    if cmd &&& 0x80 ≠ 0 then do
      let rest ← sliceFrom delta pos
      let (copyOffset, copySize, consumed) ← parseCopyInstruction cmd rest
      if copyOffset + copySize > base.length then pure (.error "copy out of bounds")
      else do
        let chunk ← slice base copyOffset (copyOffset + copySize)
        applyDeltaLoop base delta (pos + consumed) (result ++ chunk)
    else if cmd ≠ 0 then
      let insertSize := cmd
      if pos + insertSize > delta.length then pure (.error "insert truncated")
      else do
        let chunk ← slice delta pos (pos + insertSize)
        applyDeltaLoop base delta (pos + insertSize) (result ++ chunk)
    else pure (.error "reserved delta instruction")
  else pure (.ok result)
termination_by delta.length - pos

/-- `apply_delta`. -/
def applyDelta (base delta : List Nat) : Except Panic (Except String (List Nat)) := do
  let rest ← sliceFrom delta 0
  match parseDeltaSize rest with
  | .error e => pure (.error e)
  | .ok (baseSize, consumed) =>
    if baseSize ≠ base.length then pure (.error "delta base size mismatch") else do
    let rest ← sliceFrom delta consumed
    match parseDeltaSize rest with
    | .error e => pure (.error e)
    | .ok (resultSize, consumed') =>
      match ← applyDeltaLoop base delta (consumed + consumed') [] with
      | .error e => pure (.error e)
      | .ok result =>
        if result.length ≠ resultSize then pure (.error "delta result size mismatch")
        else pure (.ok result)

/-! ## Bytes and shifts -/

theorem and_0x80_eq_zero_iff {b : Nat} (hb : b < 0x100) : b &&& 0x80 = 0 ↔ b < 0x80 := by
  have key : ∀ c < 0x100, (c &&& 0x80 = 0 ↔ c < 0x80) := by decide +kernel
  exact key b hb

theorem and_0x7f (b : Nat) : b &&& 0x7f = b % 0x80 :=
  Nat.and_two_pow_sub_one_eq_mod b 7

/-- A byte below `0x80` ends a varint. -/
theorem and_0x80_of_lt {b : Nat} (hb : b < 0x80) : b &&& 0x80 = 0 :=
  (and_0x80_eq_zero_iff (by omega)).mpr hb

/-- A byte with `0x80` added to seven bits goes on. -/
theorem add_0x80_and_0x80 {b : Nat} (hb : b < 0x80) : (b + 0x80) &&& 0x80 ≠ 0 := by
  rw [Ne, and_0x80_eq_zero_iff (by omega)]
  omega

theorem shlUsize_of_lt {a s : Nat} (hs : s < 64) (h : a * 2 ^ s < 2 ^ 64) :
    shlUsize a s = a * 2 ^ s := by
  rw [shlUsize, Nat.mod_eq_of_lt hs, Nat.shiftLeft_eq, Nat.mod_eq_of_lt h]

/-- Or-ing in a chunk above the bits already set adds it. -/
theorem or_mul_two_pow {size c s : Nat} (h : size < 2 ^ s) :
    size ||| c * 2 ^ s = size + c * 2 ^ s := by
  rw [Nat.or_comm, Nat.mul_comm, ← Nat.two_pow_add_eq_or_of_lt h, Nat.add_comm]

/-! ## Sizes round trip -/

/-- Git's encoding of a delta size: seven bits a byte, least significant
first, with the high bit set on every byte but the last. -/
def deltaSizeBytes (n : Nat) : List Nat :=
  if n < 0x80 then [n] else (n % 0x80 + 0x80) :: deltaSizeBytes (n / 0x80)
termination_by n
decreasing_by omega

/-- The loop of `parse_delta_size` reads an encoded size back, added above
the bits it holds, as long as it fits in a `usize`. -/
theorem parseDeltaSizeLoop_deltaSizeBytes (m : Nat) (rest : List Nat) {size shift pos : Nat}
    (hsize : size < 2 ^ shift) (hshift : shift < 64) (hm : m * 2 ^ shift < 2 ^ 64) :
    parseDeltaSizeLoop (deltaSizeBytes m ++ rest) size shift pos =
      .ok (size + m * 2 ^ shift, pos + (deltaSizeBytes m).length) := by
  -- induction on the size, following the encoder's recursion
  induction m using Nat.strong_induction_on generalizing size shift pos with
  | _ m ih =>
  rw [deltaSizeBytes]
  split_ifs with hlast
  · -- the last byte
    have h80 : m &&& 0x80 = 0 := and_0x80_of_lt hlast
    have h7f : m &&& 0x7f = m := by rw [and_0x7f]; omega
    simp [parseDeltaSizeLoop, h80, h7f, shlUsize_of_lt hshift hm, or_mul_two_pow hsize]
  · -- a continuation byte carries the low seven bits
    obtain ⟨q, r, hr, rfl⟩ : ∃ q r, r < 0x80 ∧ m = 0x80 * q + r :=
      ⟨m / 0x80, m % 0x80, Nat.mod_lt _ (by norm_num), (Nat.div_add_mod m 0x80).symm⟩
    have hq : (0x80 * q + r) / 0x80 = q := by omega
    have hm' : (0x80 * q + r) % 0x80 = r := by omega
    have h80 : (r + 0x80) &&& 0x80 ≠ 0 := add_0x80_and_0x80 hr
    have h7f : (r + 0x80) &&& 0x7f = r := by rw [and_0x7f]; omega
    have hr2 : r * 2 ^ shift < 2 ^ 64 :=
      lt_of_le_of_lt (Nat.mul_le_mul_right _ (by omega)) hm
    have hpow : 2 ^ (shift + 7) = 2 ^ shift * 0x80 := by rw [pow_add]; rfl
    have hshift' : shift + 7 < 64 := by
      have : 2 ^ (shift + 7) < 2 ^ 64 := by
        rw [hpow]
        calc 2 ^ shift * 0x80 ≤ (0x80 * q + r) * 2 ^ shift := by
              rw [Nat.mul_comm]; exact Nat.mul_le_mul_right _ (by omega)
          _ < 2 ^ 64 := hm
      exact (Nat.pow_lt_pow_iff_right (by norm_num)).mp this
    have hsize' : size + r * 2 ^ shift < 2 ^ (shift + 7) := by
      have := Nat.mul_le_mul_right (2 ^ shift) (show r ≤ 0x7f by omega)
      rw [hpow]
      omega
    have hq' : q * 2 ^ (shift + 7) < 2 ^ 64 :=
      calc q * 2 ^ (shift + 7) = 0x80 * q * 2 ^ shift := by rw [hpow]; ring
        _ ≤ (0x80 * q + r) * 2 ^ shift := Nat.mul_le_mul_right _ (by omega)
        _ < 2 ^ 64 := hm
    have hqlt : q < 0x80 * q + r := by omega
    rw [hq, hm', List.cons_append, parseDeltaSizeLoop]
    simp only [h7f, h80, shlUsize_of_lt hshift hr2, or_mul_two_pow hsize, if_false]
    rw [ih q hqlt hsize' hshift' hq']
    congr 2
    · rw [hpow]; ring
    · simp only [List.length_cons]; omega

/-- `parse_delta_size` reads back every size that fits in a `usize`. -/
theorem parseDeltaSize_deltaSizeBytes {m : Nat} (hm : m < 2 ^ 64) (rest : List Nat) :
    parseDeltaSize (deltaSizeBytes m ++ rest) = .ok (m, (deltaSizeBytes m).length) := by
  have h := @parseDeltaSizeLoop_deltaSizeBytes m rest 0 0 0
    (by norm_num) (by norm_num) (by simpa using hm)
  simpa [parseDeltaSize] using h

/-! ## A copy command at the end of the delta -/

theorem copyField_of_clear {cmd bit : Nat} (h : cmd &&& bit = 0) (shift : Nat) (data : List Nat)
    (acc : Nat × Nat) : copyField cmd bit shift data acc = .ok acc := by
  simp [copyField, h]

theorem copyField_nil_of_set {cmd bit : Nat} (h : cmd &&& bit ≠ 0) (shift x : Nat) :
    copyField cmd bit shift [] (x, 0) = .error (.indexOutOfBounds 0 0) := by
  simp [copyField, h, index]

set_option maxRecDepth 4096 in
/-- With nothing after it, a copy command that selects any offset or size
byte panics on the first one. -/
theorem parseCopyInstruction_nil {cmd : Nat} (hcmd : cmd < 0x100) (hsel : cmd &&& 0x7f ≠ 0) :
    parseCopyInstruction cmd [] = .error (.indexOutOfBounds 0 0) := by
  have key : ∀ c < 0x100, c &&& 0x7f ≠ 0 → c &&& 0x01 ≠ 0 ∨ c &&& 0x02 ≠ 0 ∨ c &&& 0x04 ≠ 0 ∨
      c &&& 0x08 ≠ 0 ∨ c &&& 0x10 ≠ 0 ∨ c &&& 0x20 ≠ 0 ∨ c &&& 0x40 ≠ 0 := by decide +kernel
  unfold parseCopyInstruction
  -- the bytes are read in the order of the bits; the first one selected panics
  by_cases h1 : cmd &&& 0x01 = 0
  swap
  · simp only [copyField_nil_of_set h1, error_bind]
  by_cases h2 : cmd &&& 0x02 = 0
  swap
  · simp only [copyField_of_clear h1, copyField_nil_of_set h2, ok_bind, error_bind]
  by_cases h3 : cmd &&& 0x04 = 0
  swap
  · simp only [copyField_of_clear h1, copyField_of_clear h2, copyField_nil_of_set h3, ok_bind,
      error_bind]
  by_cases h4 : cmd &&& 0x08 = 0
  swap
  · simp only [copyField_of_clear h1, copyField_of_clear h2, copyField_of_clear h3,
      copyField_nil_of_set h4, ok_bind, error_bind]
  by_cases h5 : cmd &&& 0x10 = 0
  swap
  · simp only [copyField_of_clear h1, copyField_of_clear h2, copyField_of_clear h3,
      copyField_of_clear h4, copyField_nil_of_set h5, ok_bind, error_bind]
  by_cases h6 : cmd &&& 0x20 = 0
  swap
  · simp only [copyField_of_clear h1, copyField_of_clear h2, copyField_of_clear h3,
      copyField_of_clear h4, copyField_of_clear h5, copyField_nil_of_set h6, ok_bind, error_bind]
  by_cases h7 : cmd &&& 0x40 = 0
  swap
  · simp only [copyField_of_clear h1, copyField_of_clear h2, copyField_of_clear h3,
      copyField_of_clear h4, copyField_of_clear h5, copyField_of_clear h6,
      copyField_nil_of_set h7, ok_bind, error_bind]
  -- no byte selected contradicts the command
  rcases key cmd hcmd hsel with h | h | h | h | h | h | h <;> contradiction

/-- A copy command as the last byte of the delta panics in the loop. -/
theorem applyDeltaLoop_truncated_copy (base pre result : List Nat) {cmd : Nat}
    (hcmd : cmd < 0x100) (hcopy : cmd &&& 0x80 ≠ 0) (hsel : cmd &&& 0x7f ≠ 0) :
    applyDeltaLoop base (pre ++ [cmd]) pre.length result = .error (.indexOutOfBounds 0 0) := by
  have hlt : pre.length < (pre ++ [cmd]).length := by simp
  have hget : (pre ++ [cmd])[pre.length] = cmd := by simp
  have hrest : sliceFrom (pre ++ [cmd]) (pre.length + 1) = .ok [] := by
    rw [sliceFrom_of_le (by simp)]
    simp
  rw [applyDeltaLoop, dif_pos hlt]
  simp only [hget, if_pos hcopy, hrest, ok_bind, parseCopyInstruction_nil hcmd hsel, error_bind]

theorem truncated_copy_panics (base : List Nat) (n cmd : Nat) (hbase : base.length < 2 ^ 64)
    (hn : n < 2 ^ 64) (hcmd : cmd < 0x100) (hcopy : cmd &&& 0x80 ≠ 0) (hsel : cmd &&& 0x7f ≠ 0) :
    applyDelta base (deltaSizeBytes base.length ++ deltaSizeBytes n ++ [cmd]) =
      .error (.indexOutOfBounds 0 0) := by
  set pre := deltaSizeBytes base.length ++ deltaSizeBytes n with hpre
  -- both sizes read back
  have h0 : sliceFrom (pre ++ [cmd]) 0 = .ok (pre ++ [cmd]) := by
    rw [sliceFrom_of_le (Nat.zero_le _), List.drop_zero]
  have h1 : parseDeltaSize (pre ++ [cmd]) = .ok (base.length, (deltaSizeBytes base.length).length) := by
    rw [hpre, List.append_assoc]
    exact parseDeltaSize_deltaSizeBytes hbase _
  have h2 : sliceFrom (pre ++ [cmd]) (deltaSizeBytes base.length).length =
      .ok (deltaSizeBytes n ++ [cmd]) := by
    rw [sliceFrom_of_le (by simp [hpre]), hpre, List.append_assoc, List.drop_left]
  have h3 : parseDeltaSize (deltaSizeBytes n ++ [cmd]) = .ok (n, (deltaSizeBytes n).length) :=
    parseDeltaSize_deltaSizeBytes hn _
  -- the instruction loop starts at the command, with nothing after it
  have h4 : applyDeltaLoop base (pre ++ [cmd])
      ((deltaSizeBytes base.length).length + (deltaSizeBytes n).length) [] =
        .error (.indexOutOfBounds 0 0) := by
    have h := applyDeltaLoop_truncated_copy base pre [] hcmd hcopy hsel
    rwa [hpre, List.length_append] at h
  simp only [applyDelta, h0, ok_bind, h1, h2, h3, h4, error_bind, ne_eq, not_true_eq_false,
    if_false]

/-- The three bytes `00 00 91`: an empty base, an empty result, and a copy
that selects an offset byte and a size byte, neither of which is there. -/
theorem truncated_copy_panics_on_three_bytes :
    ([] : List Nat).length < 2 ^ 64 ∧ (0 : Nat) < 2 ^ 64 ∧ 0x91 < 0x100 ∧ 0x91 &&& 0x80 ≠ 0 ∧
      0x91 &&& 0x7f ≠ 0 ∧
      applyDelta [] (deltaSizeBytes 0 ++ deltaSizeBytes 0 ++ [0x91]) =
        .error (.indexOutOfBounds 0 0) :=
  ⟨by decide, by decide, by decide, by decide, by decide,
    truncated_copy_panics [] 0 0x91 (by decide) (by decide) (by decide) (by decide) (by decide)⟩

end Akuma.Git
