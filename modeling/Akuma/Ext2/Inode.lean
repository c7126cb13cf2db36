import Akuma.Ext2.Disk

/-!
# Inode data

The mapping of an inode's logical blocks to blocks of the device
(`get_block_num`, `ensure_block`) through its twelve direct pointers, its
indirect block and its double-indirect block; the whole-file reads and
writes `read_inode_data` and `write_inode_data`; `truncate_inode`; and the
sixty bytes of the block pointers in which a fast symlink keeps its target.

`ensure_block` repeats one pattern at each pointer block — read the
pointer, allocate a block if it is zero, write the pointer back — which is
`ensurePtr` here; `truncate_inode` repeats another — free every non-zero
pointer of a pointer block — which is `freePtrs`.

The blocks an inode holds, pointer blocks included, are `inodeBlocks`;
that every block held by an allocated inode is allocated, and held once,
is `BlocksAccounted`.
-/

namespace Akuma.Ext2

open Akuma.Vfs ByteCodec StateRun

/-! ## Pointer blocks -/

/-- `read_block_ptr`: the little-endian `u32` at `index`. -/
def readBlockPtr (block : List UInt8) (index : Nat) : Nat :=
  leNat ((block.drop (index * 4)).take 4)

/-- `write_block_ptr`. -/
def writeBlockPtr (block : List UInt8) (index value : Nat) : List UInt8 :=
  block.take (index * 4) ++ leBytes value 4 ++ block.drop (index * 4 + 4)

/-- A pointer as `get_block_num` returns it: zero is a hole. -/
def blockOrHole (block : Nat) : Option Nat :=
  if block = 0 then none else some block

/-! ## Block mapping -/

/-- `get_block_num`: the device block of logical block `logicalBlock`,
`none` for a hole; beyond the double-indirect range, `NotSupported`. -/
def getBlockNum (inode : Inode) (logicalBlock : Nat) : Ext2M (Option Nat) := do
  let st ← getState
  let ptrsPerBlock := st.blockSize / 4
  if h : logicalBlock < 12 then return blockOrHole inode.directBlocks[logicalBlock]
  let lb := logicalBlock - 12
  if lb < ptrsPerBlock then
    if inode.indirectBlock = 0 then return none
    let indirect ← readBlock inode.indirectBlock
    return blockOrHole (readBlockPtr indirect lb)
  let lb := lb - ptrsPerBlock
  if lb < ptrsPerBlock * ptrsPerBlock then
    if inode.doubleIndirectBlock = 0 then return none
    let doubleIndirect ← readBlock inode.doubleIndirectBlock
    let indirectBlock := readBlockPtr doubleIndirect (lb / ptrsPerBlock)
    if indirectBlock = 0 then return none
    let indirect ← readBlock indirectBlock
    return blockOrHole (readBlockPtr indirect (lb % ptrsPerBlock))
  throw .notSupported

theorem readOnly_getBlockNum (inode : Inode) (logicalBlock : Nat) :
    ReadOnly (getBlockNum inode logicalBlock) := by
  unfold getBlockNum
  refine ReadOnly.bind readOnly_getState fun st => ?_
  dsimp only
  -- the direct, indirect and double-indirect ranges, then past them
  split
  · exact ReadOnly.pure _
  split
  · split
    · exact ReadOnly.pure _
    · exact ReadOnly.bind (readOnly_readBlock _) fun _ => ReadOnly.pure _
  split
  · split
    · exact ReadOnly.pure _
    · refine ReadOnly.bind (readOnly_readBlock _) fun _ => ?_
      split
      · exact ReadOnly.pure _
      · exact ReadOnly.bind (readOnly_readBlock _) fun _ => ReadOnly.pure _
  · exact ReadOnly.throw _

/-- The step `ensure_block` repeats at each pointer block: the pointer at
`index` of block `ptrBlock`, a new block written there if it was zero; the
flag says whether a block was allocated. -/
def ensurePtr (ptrBlock index : Nat) : Ext2M (Nat × Bool) := do
  let ptrs ← readBlock ptrBlock
  let block := readBlockPtr ptrs index
  if block = 0 then
    let block ← allocateBlock
    writeBlock ptrBlock (writeBlockPtr ptrs index block)
    return (block, true)
  else return (block, false)

/-- `sectors_used += block_size / 512` for each block allocated. -/
def Inode.addSectors (inode : Inode) (sectors : Nat) (allocated : Bool) : Inode :=
  if allocated then { inode with sectorsUsed := inode.sectorsUsed + sectors } else inode

/-- `ensure_block`: the device block of logical block `logicalBlock`,
allocating it and the pointer blocks on the way; the inode comes back with
its new pointers, to be written by the caller. -/
def ensureBlock (inode : Inode) (logicalBlock : Nat) : Ext2M (Nat × Inode) := do
  let st ← getState
  let ptrsPerBlock := st.blockSize / 4
  let sectors := st.blockSize / 512
  if h : logicalBlock < 12 then
    if inode.directBlocks[logicalBlock] = 0 then
      let block ← allocateBlock
      return (block, { inode with
        directBlocks := inode.directBlocks.set logicalBlock block
        sectorsUsed := inode.sectorsUsed + sectors })
    else return (inode.directBlocks[logicalBlock], inode)
  let lb := logicalBlock - 12
  if lb < ptrsPerBlock then
    let inode ← if inode.indirectBlock = 0 then do
        let indirect ← allocateBlock
        pure { inode with indirectBlock := indirect, sectorsUsed := inode.sectorsUsed + sectors }
      else pure inode
    let (block, allocated) ← ensurePtr inode.indirectBlock lb
    return (block, inode.addSectors sectors allocated)
  let lb := lb - ptrsPerBlock
  if lb < ptrsPerBlock * ptrsPerBlock then
    let inode ← if inode.doubleIndirectBlock = 0 then do
        let doubleIndirect ← allocateBlock
        pure { inode with
          doubleIndirectBlock := doubleIndirect
          sectorsUsed := inode.sectorsUsed + sectors }
      else pure inode
    let (indirect, allocated) ← ensurePtr inode.doubleIndirectBlock (lb / ptrsPerBlock)
    let inode := inode.addSectors sectors allocated
    let (block, allocated) ← ensurePtr indirect (lb % ptrsPerBlock)
    return (block, inode.addSectors sectors allocated)
  throw .notSupported

/-! ## Whole-file data -/

/-- One logical block of `read_inode_data`, appended to `data`: the first
`min(size - data.len(), block_size)` bytes of its block, zeros for a hole. -/
def readInodeDataStep (inode : Inode) (data : List UInt8) (logicalBlock : Nat) :
    Ext2M (List UInt8) := do
  let st ← getState
  let toCopy := min (inode.sizeLower - data.length) st.blockSize
  match ← getBlockNum inode logicalBlock with
  | some phys => return data ++ (← readBlock phys).take toCopy
  | none => return data ++ List.replicate toCopy 0

/-- `read_inode_data`: the `size_lower` bytes of the file, refused above
16 MiB. -/
def readInodeData (inode : Inode) : Ext2M (List UInt8) := do
  let st ← getState
  let size := inode.sizeLower
  if size > 16 * 1024 * 1024 then throw .internal
  let blocksNeeded := (size + st.blockSize - 1) / st.blockSize
  List.foldlM (readInodeDataStep inode) [] (List.range blocksNeeded)

theorem readOnly_readInodeDataStep (inode : Inode) (data : List UInt8) (logicalBlock : Nat) :
    ReadOnly (readInodeDataStep inode data logicalBlock) := by
  unfold readInodeDataStep
  refine ReadOnly.bind readOnly_getState fun st => ?_
  refine ReadOnly.bind (readOnly_getBlockNum _ _) fun block => ?_
  -- a mapped block is read, a hole reads as zeros
  cases block with
  | some phys => exact ReadOnly.bind (readOnly_readBlock phys) fun _ => ReadOnly.pure _
  | none => exact ReadOnly.pure _

theorem readOnly_readInodeData (inode : Inode) : ReadOnly (readInodeData inode) := by
  unfold readInodeData
  refine ReadOnly.bind readOnly_getState fun st => ?_
  dsimp only
  split
  · exact ReadOnly.throw_bind _ _
  · exact ReadOnly.foldlM (readOnly_readInodeDataStep inode) _ _

/-- One logical block of `write_inode_data`: its block, allocated if need
be, gets the block's part of `data`, zero-padded. -/
def writeInodeDataStep (data : List UInt8) (inode : Inode) (logicalBlock : Nat) : Ext2M Inode := do
  let st ← getState
  let (phys, inode) ← ensureBlock inode logicalBlock
  let chunk := (data.drop (logicalBlock * st.blockSize)).take st.blockSize
  writeBlock phys (chunk ++ List.replicate (st.blockSize - chunk.length) 0)
  return inode

/-- `write_inode_data`: `data` over the first blocks of the inode, whose
size becomes `data.len() as u32`; blocks past the data are kept. -/
def writeInodeData (inodeNum : Nat) (inode : Inode) (data : List UInt8) : Ext2M Inode := do
  let st ← getState
  let blocksNeeded := (data.length + st.blockSize - 1) / st.blockSize
  let inode ← List.foldlM (writeInodeDataStep data) inode (List.range blocksNeeded)
  let inode := { inode with sizeLower := data.length % 2 ^ 32 }
  writeInode inodeNum inode
  return inode

/-- The step `truncate_inode` repeats at each pointer block: every non-zero
pointer of block `ptrBlock` is freed. -/
def freePtrs (ptrBlock ptrsPerBlock : Nat) : Ext2M Unit := do
  let ptrs ← readBlock ptrBlock
  (List.range ptrsPerBlock).forM fun i => do
    let block := readBlockPtr ptrs i
    if block ≠ 0 then freeBlock block

/-- The direct-block loop of `truncate_inode`. -/
def truncateDirect (inode : Inode) (i : Fin 12) : Ext2M Inode := do
  if inode.directBlocks[i] ≠ 0 then
    freeBlock inode.directBlocks[i]
    return { inode with directBlocks := inode.directBlocks.set i 0 }
  else return inode

/-- `truncate_inode`: every block of the inode is freed, pointer blocks
included, and the inode comes back empty. -/
def truncateInode (inode : Inode) : Ext2M Inode := do
  let st ← getState
  let ptrsPerBlock := st.blockSize / 4
  let inode ← List.foldlM truncateDirect inode (List.finRange 12)
  let inode ← if inode.indirectBlock ≠ 0 then do
      freePtrs inode.indirectBlock ptrsPerBlock
      freeBlock inode.indirectBlock
      pure { inode with indirectBlock := 0 }
    else pure inode
  let inode ← if inode.doubleIndirectBlock ≠ 0 then do
      let doubleIndirect ← readBlock inode.doubleIndirectBlock
      (List.range ptrsPerBlock).forM fun i => do
        let indirect := readBlockPtr doubleIndirect i
        if indirect ≠ 0 then
          freePtrs indirect ptrsPerBlock
          freeBlock indirect
      freeBlock inode.doubleIndirectBlock
      pure { inode with doubleIndirectBlock := 0 }
    else pure inode
  return { inode with sizeLower := 0, sectorsUsed := 0 }

/-! ## The sixty bytes of the block pointers -/

/-- The fifteen block pointers as bytes: where a fast symlink keeps its
target. -/
def Inode.blockBytes (inode : Inode) : List UInt8 :=
  (inode.directBlocks.toList ++
      [inode.indirectBlock, inode.doubleIndirectBlock, inode.tripleIndirectBlock]).flatMap
    (leBytes · 4)

/-- The `copy_nonoverlapping` of a fast symlink's target over the start of
the block pointers. -/
def Inode.withBlockBytes (inode : Inode) (bytes : List UInt8) : Inode :=
  let all := bytes ++ inode.blockBytes.drop bytes.length
  let word (k : Nat) := leNat ((all.drop (4 * k)).take 4)
  { inode with
    directBlocks := Vector.ofFn fun i => word i
    indirectBlock := word 12
    doubleIndirectBlock := word 13
    tripleIndirectBlock := word 14 }

/-- The test of `remove_file` and `read_symlink_inode` for a target kept in
the block pointers. -/
def Inode.isFastSymlink (inode : Inode) : Bool :=
  inode.kind = sIflnk ∧ inode.sectorsUsed = 0 ∧ inode.sizeLower ≤ fastSymlinkMax

/-! ## Which blocks an inode holds -/

/-- The non-zero pointers of a pointer block. -/
def ptrsOf (block : List UInt8) (ptrsPerBlock : Nat) : List Nat :=
  ((List.range ptrsPerBlock).map (readBlockPtr block)).filter (· ≠ 0)

/-- The blocks the pointers of an inode reach, in the order
`truncate_inode` frees them: data and pointer blocks. -/
def inodeBlocks (dev : Device) (ptrsPerBlock : Nat) (inode : Inode) : List Nat :=
  inode.directBlocks.toList.filter (· ≠ 0) ++
    (if inode.indirectBlock ≠ 0 then
      ptrsOf (dev.blocks inode.indirectBlock) ptrsPerBlock ++ [inode.indirectBlock]
    else []) ++
    (if inode.doubleIndirectBlock ≠ 0 then
      (ptrsOf (dev.blocks inode.doubleIndirectBlock) ptrsPerBlock).flatMap
          (fun ind => ptrsOf (dev.blocks ind) ptrsPerBlock ++ [ind]) ++
        [inode.doubleIndirectBlock]
    else [])

/-- The inodes the inode bitmaps mark allocated. -/
def allocatedInodes (fs : Ext2Filesystem) : List Nat :=
  (List.range fs.state.blockGroupCount).flatMap fun g =>
    ((List.range fs.state.inodesPerGroup).filter fun bit =>
        getBit (fs.dev.blocks (fs.bgd g).inodeBitmap) bit).map
      fun bit => g * fs.state.inodesPerGroup + bit + 1

/-- Whether the block bitmaps mark block `blockNum` allocated. -/
def blockAllocated (fs : Ext2Filesystem) (blockNum : Nat) : Bool :=
  let (group, bit) := fs.state.blockPosition blockNum
  group < fs.state.blockGroupCount ∧ getBit (fs.dev.blocks (fs.bgd group).blockBitmap) bit

/-- The blocks the allocated inodes hold; a fast symlink holds none. -/
def heldBlocks (fs : Ext2Filesystem) : List Nat :=
  (allocatedInodes fs).flatMap fun n =>
    let inode := fs.dev.inodes n
    if inode.isFastSymlink then [] else inodeBlocks fs.dev (fs.state.blockSize / 4) inode

/-- Every block an allocated inode holds is allocated, and no block is held
twice. -/
def BlocksAccounted (fs : Ext2Filesystem) : Prop :=
  (∀ b ∈ heldBlocks fs, blockAllocated fs b = true) ∧ (heldBlocks fs).Nodup

instance (fs : Ext2Filesystem) : Decidable (BlocksAccounted fs) := by
  unfold BlocksAccounted
  infer_instance

end Akuma.Ext2
