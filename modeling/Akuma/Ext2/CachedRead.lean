import Akuma.Ext2.CachedIo
import Akuma.Ext2.Mapping
import Akuma.Lib.Through

/-!
# The driver's reads through the cache

`read_at`, `lookup_path_internal`, `read_inode_data` and `get_block_num` of
`akuma-ext2/src/ext2.rs` read blocks with `read_block`, so through the
block cache. `Cached.readAt`, `Cached.lookupPathInternal`,
`Cached.readInodeData` and `Cached.getBlockNum` are these functions with the
cache threaded through each block read (`Cached.readBlockM`). The inode
records are read from the device, as `read_inode` does in the default
build.

From a cache whose blocks are the device's, each returns the outcome of the
function of `Disk` that reads the device directly, and leaves a cache whose
blocks are the device's (`returns_readAt`), provided the reads reach no
block `u32::MAX`: the ring cache answers for that block from an empty slot
(`NoMaxBlocks`).
-/

namespace Akuma.Ext2

open Akuma.Vfs Cache StateRun

/-- No block the inode reaches is `u32::MAX`: neither a block it maps nor
one of its pointer blocks. -/
structure BelowMax (fs : Ext2Filesystem) (inode : Inode) : Prop where
  ptr : ∀ x ∈ ptrBlocks fs.dev.blocks (fs.state.blockSize / 4) inode, x ≠ u32Max
  data : ∀ l b, blockMap fs.dev.blocks (fs.state.blockSize / 4) inode l = .ok (some b) → b ≠ u32Max

/-- No inode of the image reaches block `u32::MAX`. -/
def NoMaxBlocks (fs : Ext2Filesystem) : Prop :=
  ∀ n, BelowMax fs (fs.dev.inodes n)

@[simp] theorem outcome_readInode (inodeNum : Nat) (fs : Ext2Filesystem) :
    outcome (readInode inodeNum) fs =
      if inodeNum = 0 then .error .notFound else .ok (fs.dev.inodes inodeNum) := by
  unfold readInode
  split_ifs <;> rfl

namespace Cached

variable {σ : Type} (M : Impl σ Nat (List UInt8)) (fs : Ext2Filesystem)

/-- `read_block` in the reads: through the cache, from the device of
`fs`. -/
def readBlockM (blockNum : Nat) : Through FsError σ (List UInt8) :=
  ExceptT.mk fun cache => (readBlock M fs.dev cache blockNum).map fun r => (.ok r.1, r.2)

/-- `get_block_num`, its pointer blocks read through the cache. -/
def getBlockNum (inode : Inode) (logicalBlock : Nat) : Through FsError σ (Option Nat) := do
  let ptrsPerBlock := fs.state.blockSize / 4
  if h : logicalBlock < 12 then return blockOrHole inode.directBlocks[logicalBlock]
  let lb := logicalBlock - 12
  if lb < ptrsPerBlock then
    if inode.indirectBlock = 0 then return none
    let indirect ← readBlockM M fs inode.indirectBlock
    return blockOrHole (readBlockPtr indirect lb)
  let lb := lb - ptrsPerBlock
  if lb < ptrsPerBlock * ptrsPerBlock then
    if inode.doubleIndirectBlock = 0 then return none
    let doubleIndirect ← readBlockM M fs inode.doubleIndirectBlock
    let indirectBlock := readBlockPtr doubleIndirect (lb / ptrsPerBlock)
    if indirectBlock = 0 then return none
    let indirect ← readBlockM M fs indirectBlock
    return blockOrHole (readBlockPtr indirect (lb % ptrsPerBlock))
  throw .notSupported

/-- One logical block of `read_inode_data`, through the cache. -/
def readInodeDataStep (inode : Inode) (data : List UInt8) (logicalBlock : Nat) :
    Through FsError σ (List UInt8) := do
  let toCopy := min (inode.sizeLower - data.length) fs.state.blockSize
  match ← getBlockNum M fs inode logicalBlock with
  | some phys => return data ++ (← readBlockM M fs phys).take toCopy
  | none => return data ++ List.replicate toCopy 0

/-- `read_inode_data`, through the cache. -/
def readInodeData (inode : Inode) : Through FsError σ (List UInt8) := do
  let size := inode.sizeLower
  if size > 16 * 1024 * 1024 then throw .internal
  let blocksNeeded := (size + fs.state.blockSize - 1) / fs.state.blockSize
  List.foldlM (readInodeDataStep M fs inode) [] (List.range blocksNeeded)

/-- One component of `lookup_path_internal`, the directory read through the
cache. -/
def lookupStep (current : Nat) (component : Path) : Through FsError σ Nat := do
  let inode ← Through.ofExcept (outcome (readInode current) fs)
  if inode.kind ≠ sIfdir then throw .notADirectory
  let dirData ← readInodeData M fs inode
  match (parseDirectory dirData).find? (·.2.1 = component.utf8) with
  | some (inodeNum, _, _) => return inodeNum
  | none => throw .notFound

/-- `lookup_path_internal`, through the cache. -/
def lookupPathInternal (path : Path) : Through FsError σ Nat :=
  List.foldlM (lookupStep M fs) rootInode (pathComponents path)

/-- The loop of `read_at`, through the cache. -/
def readAtLoop (inode : Inode) (stop : Nat) : Nat → Nat → Through FsError σ (List UInt8)
  | 0, _ => return []
  | fuel + 1, pos => do
    if pos < stop then
      let offsetInBlock := pos % fs.state.blockSize
      let chunk := min (fs.state.blockSize - offsetInBlock) (stop - pos)
      let bytes ← match ← getBlockNum M fs inode (pos / fs.state.blockSize) with
        | some phys => do
          let block ← readBlockM M fs phys
          pure ((block.drop offsetInBlock).take chunk)
        | none => pure (List.replicate chunk 0)
      return bytes ++ (← readAtLoop inode stop fuel (pos + chunk))
    else return []

/-- `read_at` into a buffer of `len` bytes, through the cache. -/
def readAt (path : Path) (offset len : Nat) : Through FsError σ (List UInt8) := do
  if len = 0 then return []
  let inodeNum ← lookupPathInternal M fs path
  let inode ← Through.ofExcept (outcome (readInode inodeNum) fs)
  if inode.kind = sIfdir then throw .notAFile
  let fileSize := inode.sizeLower
  if offset ≥ fileSize then return []
  let stop := min (offset + len) fileSize
  readAtLoop M fs inode stop (stop - offset) offset

end Cached

/-! ## The reads return what the device holds -/

section Returns

variable {σ : Type} {M : Impl σ Nat (List UInt8)} {view : σ → Nat → Option (List UInt8)}
  {inv : σ → Prop} {blockSize : Nat} (h : M.Refines view inv (BlockOpOk blockSize)) {fs : Ext2Filesystem}
include h

/-- `read_block` of a block below `u32::MAX` returns the device's bytes. -/
theorem returns_readBlockM {b : Nat} (hb : b ≠ u32Max) :
    Returns (fun c => Cached.BlocksAgree view inv blockSize (fs, c)) (Cached.readBlockM M fs b)
      (.ok (fs.dev.blocks b)) := by
  intro c hc
  obtain ⟨c', hread, hc'⟩ := Cached.readBlock_spec h hc hb
  refine ⟨c', ?_, hc'⟩
  show Option.map _ (Cached.readBlock M fs.dev c b) = _
  rw [hread]
  rfl

/-- The block mapping read through the cache is the one on the device, when
no pointer block of the inode is `u32::MAX`. -/
theorem returns_getBlockNum {inode : Inode} (hi : BelowMax fs inode) (l : Nat) :
    Returns (fun c => Cached.BlocksAgree view inv blockSize (fs, c)) (Cached.getBlockNum M fs inode l)
      (blockMap fs.dev.blocks (fs.state.blockSize / 4) inode l) := by
  unfold Cached.getBlockNum blockMap indirectMap
  dsimp only
  split_ifs with h12 hind hi0 hdbl hd0 hp0
  · exact Returns.pure _
  · exact Returns.pure _
  · -- the indirect block
    exact Returns.bind_ok (returns_readBlockM h (hi.ptr _ (by simp [ptrBlocks, hi0]))) (Returns.pure _)
  · exact Returns.pure _
  · -- the double-indirect block, then a hole in it
    exact Returns.bind_ok (returns_readBlockM h (hi.ptr _ (by simp [ptrBlocks, hd0])))
      (by rw [if_pos hp0]; exact Returns.pure _)
  · -- the double-indirect block, then the indirect block it names
    refine Returns.bind_ok (returns_readBlockM h (hi.ptr _ (by simp [ptrBlocks, hd0]))) ?_
    rw [if_neg hp0]
    have hlt : (l - 12 - fs.state.blockSize / 4) / (fs.state.blockSize / 4) < fs.state.blockSize / 4 :=
      Nat.div_lt_of_lt_mul hdbl
    exact Returns.bind_ok (returns_readBlockM h (hi.ptr _ (by
      simp only [ptrBlocks, if_neg hd0, List.mem_append, List.mem_cons, mem_ptrsOf]
      exact .inr (.inr ⟨_, hlt, rfl, hp0⟩)))) (Returns.pure _)
  · exact Returns.throw _

theorem returns_getBlockNum_outcome {inode : Inode} (hi : BelowMax fs inode) (l : Nat) :
    Returns (fun c => Cached.BlocksAgree view inv blockSize (fs, c)) (Cached.getBlockNum M fs inode l)
      (outcome (getBlockNum inode l) fs) := by
  rw [outcome_getBlockNum]
  exact returns_getBlockNum h hi l

/-- One logical block of `read_inode_data`: the mapping, then the block or
zeros. -/
theorem returns_readInodeDataStep {inode : Inode} (hi : BelowMax fs inode) (data : List UInt8) (l : Nat) :
    Returns (fun c => Cached.BlocksAgree view inv blockSize (fs, c)) (Cached.readInodeDataStep M fs inode data l)
      (outcome (readInodeDataStep inode data l) fs) := by
  unfold Cached.readInodeDataStep readInodeDataStep
  rw [readOnly_getState.outcome_bind, outcome_getState]
  refine Returns.bind_outcome (readOnly_getBlockNum _ _) (returns_getBlockNum_outcome h hi l) fun p hp => ?_
  cases p with
  | some phys =>
    -- the mapped block is no `u32::MAX`
    rw [outcome_getBlockNum] at hp
    exact Returns.bind_outcome (readOnly_readBlock phys)
      (by rw [outcome_readBlock]; exact returns_readBlockM h (hi.data l phys hp)) fun _ _ => Returns.pure _
  | none => exact Returns.pure _

theorem returns_readInodeData {inode : Inode} (hi : BelowMax fs inode) :
    Returns (fun c => Cached.BlocksAgree view inv blockSize (fs, c)) (Cached.readInodeData M fs inode)
      (outcome (readInodeData inode) fs) := by
  unfold Cached.readInodeData readInodeData
  rw [readOnly_getState.outcome_bind, outcome_getState]
  dsimp only [Except.bind]
  by_cases hsize : inode.sizeLower > 16 * 1024 * 1024
  · rw [if_pos hsize, if_pos hsize]
    exact Returns.throw _
  · rw [if_neg hsize, if_neg hsize]
    exact Returns.foldlM_outcome (readOnly_readInodeDataStep inode) (returns_readInodeDataStep h hi) _ _

variable (hmax : NoMaxBlocks fs)
include hmax

/-- One component of the lookup: the directory's record, then its data. -/
theorem returns_lookupStep (current : Nat) (component : Path) :
    Returns (fun c => Cached.BlocksAgree view inv blockSize (fs, c)) (Cached.lookupStep M fs current component)
      (outcome (lookupStep current component) fs) := by
  unfold Cached.lookupStep lookupStep
  refine Returns.bind_outcome (readOnly_readInode current) (Returns.ofExcept _) fun inode hinode => ?_
  -- the record read is that of an inode of the image
  have hi : BelowMax fs inode := by
    rw [outcome_readInode] at hinode
    split_ifs at hinode
    cases hinode
    exact hmax current
  dsimp only
  by_cases hdir : inode.kind ≠ sIfdir
  · rw [if_pos hdir, if_pos hdir]
    exact Returns.bind_outcome (ReadOnly.throw _) (Returns.throw _) fun _ h => by cases h
  · rw [if_neg hdir, if_neg hdir]
    refine Returns.bind_outcome (readOnly_readInodeData inode) (returns_readInodeData h hi) fun dirData _ => ?_
    cases (parseDirectory dirData).find? (·.2.1 = component.utf8) with
    | some entry => exact Returns.pure _
    | none => exact Returns.throw _

theorem returns_lookupPathInternal (path : Path) :
    Returns (fun c => Cached.BlocksAgree view inv blockSize (fs, c)) (Cached.lookupPathInternal M fs path)
      (outcome (lookupPathInternal path) fs) :=
  Returns.foldlM_outcome readOnly_lookupStep (returns_lookupStep h hmax) _ _

/-- The loop of `read_at`, by induction on the fuel. -/
theorem returns_readAtLoop (inodeNum stop : Nat) :
    ∀ fuel pos, Returns (fun c => Cached.BlocksAgree view inv blockSize (fs, c))
      (Cached.readAtLoop M fs (fs.dev.inodes inodeNum) stop fuel pos)
      (outcome (readAtLoop (fs.dev.inodes inodeNum) stop fuel pos) fs)
  | 0, _ => Returns.pure _
  | fuel + 1, pos => by
    unfold Cached.readAtLoop readAtLoop
    by_cases hpos : pos < stop
    swap
    · rw [if_neg hpos, if_neg hpos]
      exact Returns.pure _
    rw [if_pos hpos, if_pos hpos, readOnly_getState.outcome_bind, outcome_getState]
    dsimp only [Except.bind]
    refine Returns.bind_outcome (readOnly_getBlockNum _ _)
      (returns_getBlockNum_outcome h (hmax inodeNum) _) fun p hp => ?_
    -- the chunk of this block, from the cache or the device, then the rest
    have hrest : ∀ bytes, Returns (fun c => Cached.BlocksAgree view inv blockSize (fs, c))
        (Cached.readAtLoop M fs (fs.dev.inodes inodeNum) stop fuel
            (pos + min (fs.state.blockSize - pos % fs.state.blockSize) (stop - pos)) >>=
          fun rest => pure (bytes ++ rest))
        (outcome (readAtLoop (fs.dev.inodes inodeNum) stop fuel
            (pos + min (fs.state.blockSize - pos % fs.state.blockSize) (stop - pos)) >>=
          fun rest => pure (bytes ++ rest)) fs) := fun bytes =>
      Returns.bind_outcome (readOnly_readAtLoop _ _ _ _) (returns_readAtLoop inodeNum stop fuel _)
        fun _ _ => Returns.pure _
    cases p with
    | some phys =>
      rw [outcome_getBlockNum] at hp
      have hread : Returns (fun c => Cached.BlocksAgree view inv blockSize (fs, c)) (Cached.readBlockM M fs phys)
          (outcome (readBlock phys) fs) := by
        rw [outcome_readBlock]
        exact returns_readBlockM h ((hmax inodeNum).data _ phys hp)
      exact Returns.bind_outcome (readOnly_readBlock phys) hread fun _ _ =>
        Returns.bind_outcome (ReadOnly.pure _) (Returns.pure _) fun bytes _ => hrest bytes
    | none =>
      exact Returns.bind_outcome (ReadOnly.pure _) (Returns.pure _) fun bytes _ => hrest bytes

/-- `read_at` through the cache returns what `read_at` reads off the
device. -/
theorem returns_readAt (path : Path) (offset len : Nat) :
    Returns (fun c => Cached.BlocksAgree view inv blockSize (fs, c)) (Cached.readAt M fs path offset len)
      (outcome (readAt path offset len) fs) := by
  unfold Cached.readAt readAt
  by_cases hlen : len = 0
  · rw [if_pos hlen, if_pos hlen]
    exact Returns.pure _
  rw [if_neg hlen, if_neg hlen]
  refine Returns.bind_outcome (readOnly_lookupPathInternal path) (returns_lookupPathInternal h hmax path)
    fun inodeNum _ => ?_
  refine Returns.bind_outcome (readOnly_readInode inodeNum) (Returns.ofExcept _) fun inode hinode => ?_
  rw [outcome_readInode] at hinode
  split_ifs at hinode
  cases hinode
  dsimp only
  by_cases hdir : (fs.dev.inodes inodeNum).kind = sIfdir
  · rw [if_pos hdir, if_pos hdir]
    exact Returns.bind_outcome (ReadOnly.throw _) (Returns.throw _) fun _ h => by cases h
  · rw [if_neg hdir, if_neg hdir]
    by_cases hoff : offset ≥ (fs.dev.inodes inodeNum).sizeLower
    · rw [if_pos hoff, if_pos hoff]
      exact Returns.pure _
    · rw [if_neg hoff, if_neg hoff]
      exact returns_readAtLoop h hmax inodeNum _ _ _

end Returns

end Akuma.Ext2
