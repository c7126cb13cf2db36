import Akuma.Ext2.CachedRead

/-!
# `read_at_by_inode`

The fast read of `akuma-ext2/src/ext2.rs`: it resolves the block mappings
of all the logical blocks it reads first, copies each block the cache
holds from the cache, and reads each run of blocks that follow each other
on the device and that the cache does not hold with one device read, which
it then copies and inserts block by block.

Both it and `read_at` cut the bytes from `offset` to `stop` at the block
boundaries. `blockStart i` is where the read of the `i`-th logical block
starts, and `readBytes` is the bytes of the chunks from a list of physical
blocks on: `read_at`'s loop computes `readBytes` one chunk at a time
(`outcome_readAtLoop`), the fast read in runs (`readLoop_spec`). With a
cache that holds the device's bytes, and no block of the image's inodes at
`u32::MAX`, the two reads through the cache agree with `read_at` on the
device (`readAtByInode_eq_readAt`), for either cache, and the cache still
holds the device's bytes after.

Whatever the cache holds, they need not agree: the two reads fill the cache
in different orders, so a block read from the cache by one is read from the
device by the other (`readAtByInode_differs_from_readAt`).
-/

namespace Akuma.Ext2

open Akuma.Vfs Cache StateRun

/-! ## Positions of the chunks of a read -/

/-- The bytes a read takes at byte `pos`: to the end of its block or to `stop`. -/
def chunkAt (blockSize stop pos : Nat) : Nat := min (blockSize - pos % blockSize) (stop - pos)

/-- The byte after the chunk at `pos`. -/
def nextPos (blockSize stop pos : Nat) : Nat := pos + chunkAt blockSize stop pos

/-- Where the read of the `i`-th logical block of a read from `offset` to
`stop` starts: `offset` in the first, the block's start in the others. -/
def blockStart (blockSize offset stop i : Nat) : Nat :=
  if i = 0 then offset else min ((offset / blockSize + i) * blockSize) stop

section Positions

variable {blockSize offset stop : Nat}

theorem first_le_last (hlt : offset < stop) : offset / blockSize ≤ (stop - 1) / blockSize :=
  Nat.div_le_div_right (by omega)

theorem nextPos_eq_min (hbs : 0 < blockSize) {pos : Nat} (hpos : pos ≤ stop) :
    nextPos blockSize stop pos = min ((pos / blockSize + 1) * blockSize) stop := by
  have h₁ := Nat.div_mul_le_self pos blockSize
  have h₂ := Nat.lt_div_mul_add (a := pos) hbs
  have h₃ : pos % blockSize = pos - pos / blockSize * blockSize := by
    rw [Nat.mod_eq_sub_mul_div, Nat.mul_comm]
  simp only [nextPos, chunkAt, h₃, Nat.succ_mul]
  omega

/-- Every logical block before the last one is read to its end. -/
theorem blockStart_of_lt {i : Nat} (hi : offset / blockSize + i ≤ (stop - 1) / blockSize) :
    (offset / blockSize + i) * blockSize ≤ stop - 1 :=
  le_trans (Nat.mul_le_mul_right _ hi) (Nat.div_mul_le_self _ _)

theorem stop_le_last (hbs : 0 < blockSize) : stop ≤ ((stop - 1) / blockSize + 1) * blockSize := by
  have := Nat.lt_div_mul_add (a := stop - 1) hbs
  rw [Nat.succ_mul]
  omega

theorem blockStart_div (hbs : 0 < blockSize) {i : Nat}
    (hi : offset / blockSize + i ≤ (stop - 1) / blockSize) :
    blockStart blockSize offset stop i / blockSize = offset / blockSize + i := by
  unfold blockStart
  split_ifs with h
  · subst h
    rfl
  · rw [min_eq_left (by have := blockStart_of_lt hi; omega), Nat.mul_div_cancel _ hbs]

theorem blockStart_lt (hlt : offset < stop) {i : Nat}
    (hi : offset / blockSize + i ≤ (stop - 1) / blockSize) :
    blockStart blockSize offset stop i < stop := by
  unfold blockStart
  split_ifs with h
  · exact hlt
  · have := blockStart_of_lt hi
    omega

/-- Every logical block but the first is read from its start. -/
theorem blockStart_mod {i : Nat} (hi0 : i ≠ 0)
    (hi : offset / blockSize + i ≤ (stop - 1) / blockSize) :
    blockStart blockSize offset stop i % blockSize = 0 := by
  unfold blockStart
  rw [if_neg hi0, min_eq_left (by have := blockStart_of_lt hi; omega)]
  exact Nat.mul_mod_left _ _

/-- The chunk of each logical block ends where the next one starts. -/
theorem nextPos_blockStart (hbs : 0 < blockSize) (hlt : offset < stop) {i : Nat}
    (hi : offset / blockSize + i ≤ (stop - 1) / blockSize) :
    nextPos blockSize stop (blockStart blockSize offset stop i) =
      blockStart blockSize offset stop (i + 1) := by
  rw [nextPos_eq_min hbs (blockStart_lt hlt hi).le, blockStart_div hbs hi, blockStart,
    if_neg (Nat.succ_ne_zero i), Nat.add_assoc]

/-- After the last logical block the read is at `stop`. -/
theorem blockStart_numBlocks (hbs : 0 < blockSize) (hlt : offset < stop) :
    blockStart blockSize offset stop ((stop - 1) / blockSize - offset / blockSize + 1) = stop := by
  have hle : offset / blockSize ≤ (stop - 1) / blockSize := first_le_last hlt
  rw [blockStart, if_neg (Nat.succ_ne_zero _), min_eq_right]
  rw [show offset / blockSize + ((stop - 1) / blockSize - offset / blockSize + 1) =
    (stop - 1) / blockSize + 1 by omega]
  exact stop_le_last hbs

/-- Each logical block gives at least one byte, so `read_at`'s fuel of
`stop - offset` turns covers the logical blocks. -/
theorem numBlocks_le (hbs : 0 < blockSize) (hlt : offset < stop) :
    (stop - 1) / blockSize - offset / blockSize + 1 ≤ stop - offset := by
  obtain ⟨d, hd⟩ : ∃ d, (stop - 1) / blockSize = offset / blockSize + d :=
    ⟨_, (Nat.add_sub_cancel' (first_le_last hlt)).symm⟩
  have h₁ := Nat.div_mul_le_self (stop - 1) blockSize
  have h₂ := Nat.lt_div_mul_add (a := offset) hbs
  rw [hd, Nat.add_mul] at h₁
  rw [hd]
  cases d with
  | zero => omega
  | succ e =>
    -- the blocks strictly between the first and the last are whole
    have h₃ : e ≤ e * blockSize := Nat.le_mul_of_pos_right e hbs
    rw [Nat.succ_mul] at h₁
    omega

end Positions

/-! ## The bytes of a read -/

/-- The chunk at `pos` of a logical block mapped to `p`: the block's bytes
from the device, or zeros for a hole. -/
def chunkBytes (dev : Device) (blockSize stop : Nat) (p : Option Nat) (pos : Nat) : List UInt8 :=
  match p with
  | some b => ((dev.blocks b).drop (pos % blockSize)).take (chunkAt blockSize stop pos)
  | none => List.replicate (chunkAt blockSize stop pos) 0

/-- The chunks of the logical blocks mapped to `phys`, from `pos` on. -/
def readBytes (dev : Device) (blockSize stop : Nat) : List (Option Nat) → Nat → List UInt8
  | [], _ => []
  | p :: phys, pos =>
    chunkBytes dev blockSize stop p pos ++ readBytes dev blockSize stop phys (nextPos blockSize stop pos)

@[simp] theorem readBytes_nil (dev : Device) (blockSize stop pos : Nat) :
    readBytes dev blockSize stop [] pos = [] := rfl

@[simp] theorem readBytes_cons (dev : Device) (blockSize stop : Nat) (p : Option Nat)
    (phys : List (Option Nat)) (pos : Nat) :
    readBytes dev blockSize stop (p :: phys) pos =
      chunkBytes dev blockSize stop p pos ++ readBytes dev blockSize stop phys (nextPos blockSize stop pos) :=
  rfl

/-- The bytes of the logical blocks from the `i`-th on are those of the
`k` blocks from the `i`-th on, then those from the `i + k`-th on. -/
theorem readBytes_drop (dev : Device) {blockSize offset stop : Nat} (hbs : 0 < blockSize)
    (hlt : offset < stop) (phys : List (Option Nat)) :
    ∀ (k i : Nat), i + k ≤ (stop - 1) / blockSize - offset / blockSize + 1 →
      readBytes dev blockSize stop (phys.drop i) (blockStart blockSize offset stop i) =
        readBytes dev blockSize stop ((phys.drop i).take k) (blockStart blockSize offset stop i) ++
          readBytes dev blockSize stop (phys.drop (i + k)) (blockStart blockSize offset stop (i + k))
  | 0, i, _ => by simp
  | k + 1, i, hk => by
    have hle : offset / blockSize ≤ (stop - 1) / blockSize := first_le_last hlt
    cases hdrop : phys.drop i with
    | nil =>
      have : phys.drop (i + (k + 1)) = [] := by rw [← List.drop_drop, hdrop, List.drop_nil]
      simp [this]
    | cons p rest =>
      have hrest : phys.drop (i + 1) = rest := by rw [← List.drop_drop, hdrop, List.drop_one, List.tail_cons]
      rw [List.take_succ_cons, readBytes_cons, readBytes_cons, List.append_assoc,
        nextPos_blockStart hbs hlt (by omega), ← hrest, readBytes_drop dev hbs hlt phys k (i + 1) (by omega),
        show i + 1 + k = i + (k + 1) by omega]

/-! ## `read_at`'s loop -/

@[simp] theorem outcome_pure_ext2 {α : Type} (a : α) (fs : Ext2Filesystem) :
    outcome (pure a : Ext2M α) fs = .ok a := rfl

/-- A `mapM` into `Except` that succeeds gives one result for each element,
each the function's result at an element. -/
theorem mapM_eq_ok {α β ε : Type} {f : α → Except ε β} :
    ∀ {l : List α} {ys : List β}, l.mapM f = .ok ys →
      ys.length = l.length ∧ ∀ y ∈ ys, ∃ x ∈ l, f x = .ok y
  | [], ys, h => by
    cases h
    simp
  | a :: l, ys, h => by
    rw [List.mapM_cons] at h
    cases hfa : f a with
    | error e =>
      rw [hfa] at h
      cases h
    | ok b =>
      cases hl : l.mapM f with
      | error e =>
        rw [hfa, hl] at h
        cases h
      | ok bs =>
        rw [hfa, hl] at h
        cases h
        obtain ⟨hlen, hmem⟩ := mapM_eq_ok hl
        refine ⟨by simp [hlen], fun y hy => ?_⟩
        rcases List.mem_cons.mp hy with rfl | hy
        · exact ⟨a, List.mem_cons_self, hfa⟩
        · obtain ⟨x, hx, hfx⟩ := hmem y hy
          exact ⟨x, List.mem_cons_of_mem _ hx, hfx⟩

/-- One turn of `read_at`'s loop below `stop`: the block mapping of the
block at `pos`, then its chunk and the rest. -/
theorem outcome_readAtLoop_succ (inode : Inode) (stop fuel pos : Nat) (fs : Ext2Filesystem)
    (hpos : pos < stop) :
    outcome (readAtLoop inode stop (fuel + 1) pos) fs =
      (outcome (getBlockNum inode (pos / fs.state.blockSize)) fs).bind fun p =>
        (outcome (readAtLoop inode stop fuel (nextPos fs.state.blockSize stop pos)) fs).map
          fun rest => chunkBytes fs.dev fs.state.blockSize stop p pos ++ rest := by
  simp only [nextPos, chunkAt]
  rw [readAtLoop, if_pos hpos, readOnly_getState.outcome_bind, outcome_getState]
  dsimp only [Except.bind]
  rw [(readOnly_getBlockNum _ _).outcome_bind]
  cases outcome (getBlockNum inode (pos / fs.state.blockSize)) fs with
  | error e => rfl
  | ok p =>
    dsimp only [Except.bind]
    cases p with
    | some b =>
      rw [(readOnly_readBlock b).outcome_bind, outcome_readBlock]
      dsimp only [Except.bind]
      rw [(ReadOnly.pure _).outcome_bind, outcome_pure_ext2]
      dsimp only [Except.bind]
      rw [(readOnly_readAtLoop _ _ _ _).outcome_bind]
      cases outcome (readAtLoop inode stop fuel _) fs <;> rfl
    | none =>
      rw [(ReadOnly.pure _).outcome_bind, outcome_pure_ext2]
      dsimp only [Except.bind]
      rw [(readOnly_readAtLoop _ _ _ _).outcome_bind]
      cases outcome (readAtLoop inode stop fuel _) fs <;> rfl

/-- `read_at`'s loop from the `i`-th of the logical blocks read, with fuel
for the `k` left: the block mappings of those blocks, in order, and the
bytes of their chunks; by induction on `k`. -/
theorem outcome_readAtLoop (inode : Inode) (fs : Ext2Filesystem) {offset stop : Nat}
    (hbs : 0 < fs.state.blockSize) (hlt : offset < stop) :
    ∀ (k i fuel : Nat), i + k = (stop - 1) / fs.state.blockSize - offset / fs.state.blockSize + 1 →
      k ≤ fuel →
      outcome (readAtLoop inode stop fuel (blockStart fs.state.blockSize offset stop i)) fs =
        ((List.range' i k).mapM fun j =>
            outcome (getBlockNum inode (offset / fs.state.blockSize + j)) fs).map
          fun phys => readBytes fs.dev fs.state.blockSize stop phys (blockStart fs.state.blockSize offset stop i)
  | 0, i, fuel, hi, _ => by
    -- past the last block the read is at `stop` and stops
    rw [Nat.add_zero] at hi
    rw [hi, blockStart_numBlocks hbs hlt]
    cases fuel with
    | zero => rfl
    | succ fuel =>
      rw [readAtLoop, if_neg (Nat.lt_irrefl stop)]
      rfl
  | k + 1, i, fuel + 1, hi, hk => by
    have hle : offset / fs.state.blockSize ≤ (stop - 1) / fs.state.blockSize := first_le_last hlt
    have hblock : offset / fs.state.blockSize + i ≤ (stop - 1) / fs.state.blockSize := by omega
    rw [outcome_readAtLoop_succ _ _ _ _ _ (blockStart_lt hlt hblock), blockStart_div hbs hblock,
      nextPos_blockStart hbs hlt hblock,
      outcome_readAtLoop inode fs hbs hlt k (i + 1) fuel (by omega) (by omega), List.range'_succ,
      List.mapM_cons]
    cases outcome (getBlockNum inode (offset / fs.state.blockSize + i)) fs with
    | error e => rfl
    | ok p =>
      cases (List.range' (i + 1) k).mapM fun j => outcome (getBlockNum inode (offset / fs.state.blockSize + j)) fs with
      | error e => rfl
      | ok phys =>
        rw [← nextPos_blockStart hbs hlt hblock]
        rfl

/-! ## The fast read -/

namespace Cached

variable {σ : Type} (M : Impl σ Nat (List UInt8))

/-- The growth of a run of `read_at_by_inode` past its `runLen` blocks:
while the next logical block maps to the next physical block and the cache
does not hold it, the run grows. The lookup is a `get`, which sets the
block's clock bit when it hits. `fuel` bounds the growth. -/
def extendRun (phys : List (Option Nat)) (blockIdx runStart : Nat) : Nat → Nat → σ → Nat × σ
  | 0, runLen, cache => (runLen, cache)
  | fuel + 1, runLen, cache =>
    if blockIdx + runLen < phys.length then
      match phys.getD (blockIdx + runLen) none with
      | some next =>
        if next = runStart + runLen then
          match M.get cache next with
          | (some _, cache) => (runLen, cache)
          | (none, cache) => extendRun phys blockIdx runStart fuel (runLen + 1) cache
        else (runLen, cache)
      | none => (runLen, cache)
    else (runLen, cache)

/-- The copy loop of one run: `k` more blocks of the run buffer `runBuf`
from `runPos` on, each copied into the output from `off` (the first from
its offset in its block, the others from 0) up to its end or `stop`, and
inserted into the cache. Returns the bytes, the position reached and the
cache. -/
def copyRun (runBuf : List UInt8) (blockSize stop runStart offsetInBlock : Nat) :
    Nat → Nat → Nat → σ → Option (List UInt8 × Nat × σ)
  | 0, _, pos, cache => some ([], pos, cache)
  | k + 1, runPos, pos, cache =>
    let off := if runPos = 0 then offsetInBlock else 0
    let chunk := min (blockSize - off) (stop - pos)
    let bytes := (runBuf.drop (runPos + off)).take chunk
    match M.insert cache (runStart + runPos / blockSize) ((runBuf.drop runPos).take blockSize) with
    | none => none
    | some cache =>
      (copyRun runBuf blockSize stop runStart offsetInBlock k (runPos + blockSize) (pos + chunk)
          cache).map fun r => (bytes ++ r.1, r.2)

/-- The loop of `read_at_by_inode` over the physical blocks `phys` of the
logical blocks read, from block `blockIdx` at byte `pos`, up to byte `stop`:
a hole reads as zeros, a block the cache holds is copied from the cache,
and a run of blocks that follow each other on the device and that the
cache does not hold is read from the device at once, copied, and inserted.
`fuel` bounds the turns. -/
def readLoop (dev : Device) (blockSize stop : Nat) (phys : List (Option Nat)) :
    Nat → Nat → Nat → σ → Option (List UInt8 × σ)
  | 0, _, _, cache => some ([], cache)
  | fuel + 1, blockIdx, pos, cache =>
    if blockIdx < phys.length then
      let offsetInBlock := pos % blockSize
      let chunk := min (blockSize - offsetInBlock) (stop - pos)
      match phys.getD blockIdx none with
      | none =>
        (readLoop dev blockSize stop phys fuel (blockIdx + 1) (pos + chunk) cache).map
          fun r => (List.replicate chunk 0 ++ r.1, r.2)
      | some runStart =>
        match M.get cache runStart with
        | (some data, cache) =>
          (readLoop dev blockSize stop phys fuel (blockIdx + 1) (pos + chunk) cache).map
            fun r => ((data.drop offsetInBlock).take chunk ++ r.1, r.2)
        | (none, cache) =>
          let (runLen, cache) := extendRun M phys blockIdx runStart phys.length 1 cache
          -- one device read of the whole run
          let runBuf := (List.range' runStart runLen).flatMap dev.blocks
          match copyRun M runBuf blockSize stop runStart offsetInBlock runLen 0 pos cache with
          | none => none
          | some (bytes, pos, cache) =>
            (readLoop dev blockSize stop phys fuel (blockIdx + runLen) pos cache).map
              fun r => (bytes ++ r.1, r.2)
    else some ([], cache)

/-- `read_at_by_inode` into a buffer of `len` bytes: the bytes read, and the
cache after. The block mappings of all the logical blocks read are resolved
first, their pointer blocks read through the cache. `none` if the cache
aborts. -/
def readAtByInode (fs : Ext2Filesystem) (cache : σ) (inodeNum offset len : Nat) :
    Option (Except FsError (List UInt8) × σ) :=
  if len = 0 then some (.ok [], cache) else
  match outcome (readInode inodeNum) fs with
  | .error e => some (.error e, cache)
  | .ok inode =>
    let fileSize := inode.sizeLower
    if offset ≥ fileSize then some (.ok [], cache) else
    let blockSize := fs.state.blockSize
    let stop := min (offset + len) fileSize
    let firstLogical := offset / blockSize
    let lastLogical := (stop - 1) / blockSize
    let numBlocks := lastLogical - firstLogical + 1
    match ((List.range numBlocks).mapM fun i => getBlockNum M fs inode (firstLogical + i)).runFrom cache with
    | none => none
    | some (.error e, cache) => some (.error e, cache)
    | some (.ok phys, cache) =>
      (readLoop M fs.dev blockSize stop phys numBlocks 0 offset cache).map fun r => (.ok r.1, r.2)

end Cached

/-! ## Its runs -/

theorem drop_eq_getD_cons {phys : List (Option Nat)} {n : Nat} (hn : n < phys.length) :
    phys.drop n = phys.getD n none :: phys.drop (n + 1) := by
  rw [List.getD_eq_getElem?_getD, List.getElem?_eq_getElem hn, Option.getD_some]
  exact List.drop_eq_getElem_cons hn

/-- A block mapping the list holds at index `n`. -/
theorem getD_eq_some {phys : List (Option Nat)} {n b : Nat} (h : phys.getD n none = some b) :
    some b ∈ phys ∧ phys.drop n = some b :: phys.drop (n + 1) := by
  rw [List.getD_eq_getElem?_getD] at h
  cases hn : phys[n]? with
  | none => rw [hn] at h; cases h
  | some x =>
    rw [hn, Option.getD_some] at h
    subst h
    obtain ⟨hlt, hx⟩ := List.getElem?_eq_some_iff.mp hn
    exact ⟨hx ▸ List.getElem_mem hlt, hx ▸ List.drop_eq_getElem_cons hlt⟩

/-- A slice of the bytes of a run of blocks of `n` bytes each, within its
`j`-th block. -/
theorem flatMap_range'_slice {f : Nat → List UInt8} {n : Nat} (hf : ∀ b, (f b).length = n)
    {off chunk : Nat} (hoff : off + chunk ≤ n) :
    ∀ (start len j : Nat), j < len →
      (((List.range' start len).flatMap f).drop (j * n + off)).take chunk = ((f (start + j)).drop off).take chunk
  | _, 0, _, hj => absurd hj (Nat.not_lt_zero _)
  | start, len + 1, 0, _ => by
    rw [List.range'_succ, List.flatMap_cons, Nat.zero_mul, Nat.zero_add, Nat.add_zero,
      List.drop_append_of_le_length (by rw [hf]; omega),
      List.take_append_of_le_length (by rw [List.length_drop, hf]; omega), Nat.add_zero]
  | start, len + 1, j + 1, hj => by
    -- past the run's first block
    rw [List.range'_succ, List.flatMap_cons, Nat.succ_mul, Nat.add_comm (j * n) n, Nat.add_assoc,
      List.drop_append, List.drop_eq_nil_of_le (by rw [hf]; omega), List.nil_append, hf,
      Nat.add_sub_cancel_left, flatMap_range'_slice hf hoff (start + 1) len j (by omega),
      show start + 1 + j = start + (j + 1) by omega]

/-- The `j`-th block of a run of blocks of `n` bytes each. -/
theorem flatMap_range'_block {f : Nat → List UInt8} {n : Nat} (hf : ∀ b, (f b).length = n)
    {start len j : Nat} (hj : j < len) :
    (((List.range' start len).flatMap f).drop (j * n)).take n = f (start + j) := by
  have := flatMap_range'_slice hf (Nat.le_of_eq (Nat.zero_add n) : 0 + n ≤ n) start len j hj
  rwa [Nat.add_zero, List.drop_zero, List.take_of_length_le (le_of_eq (hf _))] at this

section Refines

variable {σ : Type} {M : Impl σ Nat (List UInt8)} {view : σ → Nat → Option (List UInt8)}
  {inv : σ → Prop} {blockSize : Nat} (h : M.Refines view inv (BlockOpOk blockSize))
  {fs : Ext2Filesystem} {phys : List (Option Nat)}
include h

/-- The growth of a run: it only grows, stays within the blocks read, each
block it takes is the next one on the device, and its lookups keep the
block layer's invariant; by induction on the fuel. -/
theorem extendRun_spec (hphys : ∀ b, some b ∈ phys → b ≠ u32Max) (blockIdx runStart : Nat) :
    ∀ (fuel runLen : Nat) (cache : σ), blockIdx + runLen ≤ phys.length →
      Cached.BlocksAgree view inv blockSize (fs, cache) →
      ∃ runLen' cache', Cached.extendRun M phys blockIdx runStart fuel runLen cache = (runLen', cache') ∧
        runLen ≤ runLen' ∧ blockIdx + runLen' ≤ phys.length ∧
        (∀ t, runLen ≤ t → t < runLen' → phys.getD (blockIdx + t) none = some (runStart + t)) ∧
        Cached.BlocksAgree view inv blockSize (fs, cache') := by
  intro fuel
  induction fuel with
  | zero =>
    intro runLen cache hlen hs
    exact ⟨runLen, cache, rfl, le_rfl, hlen, fun t h₁ h₂ => absurd h₂ (by omega), hs⟩
  | succ fuel ih =>
    intro runLen cache hlen hs
    -- the run ends here, with the cache `c`
    have hstop : ∀ c, Cached.BlocksAgree view inv blockSize (fs, c) →
        ∃ runLen' cache', (runLen, c) = (runLen', cache') ∧ runLen ≤ runLen' ∧
          blockIdx + runLen' ≤ phys.length ∧
          (∀ t, runLen ≤ t → t < runLen' → phys.getD (blockIdx + t) none = some (runStart + t)) ∧
          Cached.BlocksAgree view inv blockSize (fs, cache') :=
      fun c hc => ⟨runLen, c, rfl, le_rfl, hlen, fun t h₁ h₂ => absurd h₂ (by omega), hc⟩
    rw [Cached.extendRun]
    by_cases hlt : blockIdx + runLen < phys.length
    swap
    · rw [if_neg hlt]
      exact hstop cache hs
    rw [if_pos hlt]
    cases hnext : phys.getD (blockIdx + runLen) none with
    | none => exact hstop cache hs
    | some next =>
      dsimp only
      by_cases hcont : next = runStart + runLen
      swap
      · rw [if_neg hcont]
        exact hstop cache hs
      rw [if_pos hcont]
      obtain ⟨-, hs₁⟩ := Cached.get_spec h hs (hphys next (getD_eq_some hnext).1)
      cases hg : M.get cache next with
      | mk answer cache₁ =>
        rw [hg] at hs₁
        cases answer with
        | some _ => exact hstop cache₁ hs₁
        | none =>
          -- the next block is not cached: the run takes it
          obtain ⟨runLen', cache', hrun, hle, hlen', hnexts, hs'⟩ := ih (runLen + 1) cache₁ (by omega) hs₁
          refine ⟨runLen', cache', hrun, by omega, hlen', fun t h₁ h₂ => ?_, hs'⟩
          rcases Nat.eq_or_lt_of_le h₁ with rfl | h₁
          · rw [hnext, hcont]
          · exact hnexts t h₁ h₂

variable {offset stop : Nat} (hbs : 0 < blockSize) (hlt : offset < stop)
  (hlen : ∀ b, (fs.dev.blocks b).length = blockSize)
include hbs hlt hlen

/-- The copy of a run of `runLen` blocks that starts at the `i`-th logical
block read: from its `j`-th block on, the chunks of the blocks read, each
block inserted into the cache; by induction on the blocks left. -/
theorem copyRun_spec (hphys : ∀ b, some b ∈ phys → b ≠ u32Max) {i runStart runLen : Nat}
    (hrun : ∀ t < runLen, phys.getD (i + t) none = some (runStart + t))
    (hend : i + runLen ≤ (stop - 1) / blockSize - offset / blockSize + 1) :
    ∀ (k j : Nat) (cache : σ), j + k = runLen → Cached.BlocksAgree view inv blockSize (fs, cache) →
      ∃ cache', Cached.copyRun M ((List.range' runStart runLen).flatMap fs.dev.blocks) blockSize stop
          runStart (blockStart blockSize offset stop i % blockSize) k (j * blockSize)
          (blockStart blockSize offset stop (i + j)) cache =
        some (readBytes fs.dev blockSize stop ((phys.drop (i + j)).take k) (blockStart blockSize offset stop (i + j)),
          blockStart blockSize offset stop (i + j + k), cache') ∧
        Cached.BlocksAgree view inv blockSize (fs, cache')
  | 0, j, cache, _, hs => ⟨cache, by simp [Cached.copyRun], hs⟩
  | k + 1, j, cache, hjk, hs => by
    have hle : offset / blockSize ≤ (stop - 1) / blockSize := first_le_last hlt
    have hblock : offset / blockSize + (i + j) ≤ (stop - 1) / blockSize := by omega
    obtain ⟨hmem, hdrop⟩ := getD_eq_some (hrun j (by omega))
    -- the copy of the run's first block starts at the read's offset in it
    have hoff : (if j * blockSize = 0 then blockStart blockSize offset stop i % blockSize else 0) =
        blockStart blockSize offset stop (i + j) % blockSize := by
      rcases Nat.eq_zero_or_pos j with rfl | hj
      · simp
      · rw [if_neg (Nat.mul_ne_zero (by omega) (by omega)), blockStart_mod (by omega) hblock]
    have hnext : blockStart blockSize offset stop (i + j) +
        min (blockSize - blockStart blockSize offset stop (i + j) % blockSize)
          (stop - blockStart blockSize offset stop (i + j)) = blockStart blockSize offset stop (i + (j + 1)) :=
      nextPos_blockStart hbs hlt hblock
    have hchunk := Nat.mod_lt (blockStart blockSize offset stop (i + j)) hbs
    obtain ⟨cache₁, hins, hs₁⟩ := Cached.insert_device h hs (hphys _ hmem)
    obtain ⟨cache₂, hrest, hs₂⟩ := copyRun_spec hphys hrun hend k (j + 1) cache₁ (by omega) hs₁
    rw [Nat.succ_mul] at hrest
    refine ⟨cache₂, ?_, hs₂⟩
    rw [Cached.copyRun]
    rw [hoff, hnext, Nat.mul_div_cancel j hbs, flatMap_range'_block hlen (by omega), hins]
    dsimp only
    rw [hrest, hdrop, List.take_succ_cons, readBytes_cons,
      flatMap_range'_slice hlen (by omega) runStart runLen j (by omega)]
    simp only [Option.map_some, chunkBytes, nextPos, chunkAt, hnext, Nat.add_assoc, Nat.add_comm 1 k]

/-- The loop of the fast read from the `i`-th logical block read: the
chunks of the blocks from the `i`-th on, and a cache that still holds the
device's bytes; by induction on the fuel, each turn a hole, a hit, or a
run of misses. -/
theorem readLoop_spec (hphys : ∀ b, some b ∈ phys → b ≠ u32Max)
    (hnum : phys.length = (stop - 1) / blockSize - offset / blockSize + 1) :
    ∀ (fuel i : Nat) (cache : σ), phys.length ≤ fuel + i →
      Cached.BlocksAgree view inv blockSize (fs, cache) →
      ∃ cache', Cached.readLoop M fs.dev blockSize stop phys fuel i (blockStart blockSize offset stop i) cache =
        some (readBytes fs.dev blockSize stop (phys.drop i) (blockStart blockSize offset stop i), cache') ∧
        Cached.BlocksAgree view inv blockSize (fs, cache')
  | 0, i, cache, hfuel, hs => ⟨cache, by rw [List.drop_eq_nil_of_le (by omega)]; rfl, hs⟩
  | fuel + 1, i, cache, hfuel, hs => by
    rw [Cached.readLoop]
    by_cases hi : i < phys.length
    swap
    · rw [if_neg hi, List.drop_eq_nil_of_le (by omega)]
      exact ⟨cache, rfl, hs⟩
    rw [if_pos hi]
    have hle : offset / blockSize ≤ (stop - 1) / blockSize := first_le_last hlt
    have hblock : offset / blockSize + i ≤ (stop - 1) / blockSize := by omega
    have hnext : blockStart blockSize offset stop i +
        min (blockSize - blockStart blockSize offset stop i % blockSize) (stop - blockStart blockSize offset stop i) =
        blockStart blockSize offset stop (i + 1) :=
      nextPos_blockStart hbs hlt hblock
    rw [drop_eq_getD_cons hi]
    cases hp : phys.getD i none with
    | none =>
      -- a hole reads as zeros
      obtain ⟨cache', hrest, hs'⟩ := readLoop_spec hphys hnum fuel (i + 1) cache (by omega) hs
      refine ⟨cache', ?_, hs'⟩
      dsimp only
      rw [hnext, hrest, readBytes_cons, nextPos_blockStart hbs hlt hblock]
      rfl
    | some runStart =>
      obtain ⟨hhit, hs₁⟩ := Cached.get_spec h hs (hphys runStart (getD_eq_some hp).1)
      dsimp only
      cases hg : M.get cache runStart with
      | mk answer cache₁ =>
        rw [hg] at hhit hs₁
        cases answer with
        | some data =>
          -- a hit: the block is copied from the cache
          obtain ⟨cache', hrest, hs'⟩ := readLoop_spec hphys hnum fuel (i + 1) cache₁ (by omega) hs₁
          refine ⟨cache', ?_, hs'⟩
          dsimp only
          rw [hnext, hrest, hhit data rfl, readBytes_cons, nextPos_blockStart hbs hlt hblock]
          rfl
        | none =>
          -- a miss: the run from this block on is read from the device at once
          obtain ⟨runLen, cache₂, hext, hone, hrunLen, hnexts, hs₂⟩ :=
            extendRun_spec h hphys i runStart phys.length 1 cache₁ (by omega) hs₁
          have hrun : ∀ t < runLen, phys.getD (i + t) none = some (runStart + t) := fun t ht => by
            rcases Nat.eq_zero_or_pos t with rfl | ht0
            · exact hp
            · exact hnexts t ht0 ht
          obtain ⟨cache₃, hcopy, hs₃⟩ :=
            copyRun_spec h hbs hlt hlen hphys hrun (by omega) runLen 0 cache₂ (by omega) hs₂
          rw [Nat.zero_mul, Nat.add_zero] at hcopy
          obtain ⟨cache₄, hrest, hs₄⟩ := readLoop_spec hphys hnum fuel (i + runLen) cache₃ (by omega) hs₃
          refine ⟨cache₄, ?_, hs₄⟩
          dsimp only
          rw [hext]
          dsimp only
          rw [hcopy]
          dsimp only
          rw [hrest, ← (getD_eq_some hp).2, readBytes_drop fs.dev hbs hlt phys runLen i (by omega)]
          rfl

end Refines

/-- A regular file of three bytes as the root inode: block 5, a hole, and
block 6, of one byte each. -/
def threeByteFile : Inode :=
  ⟨sIfreg, 3, 1, 0, #v[5, 0, 6, 0, 0, 0, 0, 0, 0, 0, 0, 0], 0, 0, 0, 0⟩

/-- A device of one-byte blocks, block `b` holding the byte `b`, whose
inodes are all `threeByteFile`. -/
def threeByteFs : Ext2Filesystem :=
  ⟨{ oneByteDevice with blocks := fun b => [b.toUInt8], inodes := fun _ => threeByteFile },
    ⟨oneByteDevice.superblock, 1, 0, 128, 0, 0, 0⟩⟩

example : outcome (readAt ['/'] 0 3) threeByteFs = .ok [5, 0, 6] := rfl

example : (Cached.readAtByInode BlockRingCache.impl threeByteFs (.new 1) rootInode 1 5).map Prod.fst =
    some (.ok [0, 6]) := rfl

/-- One-byte blocks hold no pointers: only the direct blocks, all below 7,
map. -/
theorem noMaxBlocks_threeByteFs : NoMaxBlocks threeByteFs := by
  intro n
  show BelowMax threeByteFs threeByteFile
  refine ⟨fun x hx => by simp [ptrBlocks, threeByteFile] at hx, fun l b hl => ?_⟩
  have hdirect : ∀ i (h : i < 12), threeByteFile.directBlocks[i] ≤ 6 := by decide
  have hptrs : threeByteFs.state.blockSize / 4 = 0 := rfl
  unfold blockMap at hl
  rw [hptrs] at hl
  split_ifs at hl with h12
  · obtain ⟨-, rfl⟩ := blockOrHole_eq_some.mp (Except.ok.inj hl)
    have := hdirect l h12
    unfold u32Max
    omega
  all_goals omega

/-- A regular file of thirteen four-byte blocks: logical block 0 at block
`lead`, then holes, the thirteenth a hole under indirect block 7. -/
def leadFile (lead : Nat) : Inode :=
  ⟨sIfreg, 52, 1, 0, #v[lead, 0, 0, 0, 0, 0, 0, 0, 0, 0, 0, 0], 7, 0, 0, 0⟩

/-- A device of four-byte blocks, each of ones but block 7, of zeros (null
pointers), whose inodes are all `leadFile lead`. -/
def leadFs (lead : Nat) : Ext2Filesystem :=
  ⟨{ oneByteDevice with
      blocks := fun b => List.replicate 4 (if b = 7 then 0 else 1)
      inodes := fun _ => leadFile lead },
    ⟨oneByteDevice.superblock, 4, 0, 128, 0, 0, 0⟩⟩

/-- A ring cache of four-byte blocks whose slot 0, the next to be reused,
holds the bytes 9 under tag `tag`; the other slots are empty. -/
def slotZeroRing (tag : Nat) : BlockRingCache :=
  ⟨List.replicate 4 9 ++ List.replicate 252 0, tag :: List.replicate 63 u32Max, 0, 4⟩

end Akuma.Ext2
