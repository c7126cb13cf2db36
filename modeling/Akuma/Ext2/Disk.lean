import Akuma.Vfs.Basic
import Akuma.Lib.Bytes
import Akuma.Lib.State

/-!
# The ext2 disk

The on-disk records of `akuma-ext2/src/ext2.rs` that the driver reads and
writes, the device, the block and record I/O, the bitmaps, and the
allocators of blocks and inodes.

The device is a map from block numbers to blocks: `read_block` and
`write_block` see it as the source does, and `read_bytes` and `write_bytes`
at a byte offset are `readDeviceBytes` and `writeDeviceBytes` over the same
blocks. The block group descriptors are bytes of the descriptor table, the
block after the first data block (`bgd_offset`): `read_bgd` decodes a
descriptor from them and `write_bgd` encodes one into them, so that a write
of a whole block can overwrite the descriptors, as on the device. The
superblock and the inodes are kept as records beside the blocks, the
superblock as the in-memory copy `write_superblock` writes and the inodes
indexed by number; their bytes and the time stamps of the inodes are not
modelled. The block cache is transparent (a write drops the cached block)
and the device does not fail, so `IoError` does not arise.

The driver is a computation in `EStateM FsError`: an operation that fails
keeps the writes it made before it failed, as the device does. The free
counts of the descriptors are `u16` and those of the superblock `u32`: the
increments of the frees wrap, as the source's `+=` does in a release build.

Each allocator scans the bitmaps with one helper (`takeFirstClearBit`) and
each free clears a bit with another (`releaseBit`); the accounting they are
meant to keep — every group's free counts are the clear bits of its
bitmaps, and the superblock's counts are their sums — is `CountsAgree`.
-/

namespace Akuma.Ext2

open Akuma.Vfs ByteCodec StateRun

/-! ## Constants -/

/-- `EXT2_MAGIC`. -/
def ext2Magic : Nat := 0xEF53
/-- `ROOT_INODE`. -/
def rootInode : Nat := 2
/-- `S_IFREG`. -/
def sIfreg : Nat := 0x8000
/-- `S_IFDIR`. -/
def sIfdir : Nat := 0x4000
/-- `S_IFLNK`. -/
def sIflnk : Nat := 0xA000
/-- `DEFAULT_FILE_PERMS`. -/
def defaultFilePerms : Nat := sIfreg ||| 0o644
/-- `DEFAULT_DIR_PERMS`. -/
def defaultDirPerms : Nat := sIfdir ||| 0o755
/-- `DEFAULT_SYMLINK_PERMS`. -/
def defaultSymlinkPerms : Nat := sIflnk ||| 0o777
/-- `FAST_SYMLINK_MAX`: the 60 bytes of the fifteen block pointers. -/
def fastSymlinkMax : Nat := 60
/-- `FT_REG_FILE`. -/
def ftRegFile : Nat := 1
/-- `FT_DIR`. -/
def ftDir : Nat := 2
/-- `FT_SYMLINK`. -/
def ftSymlink : Nat := 7
/-- `DIR_ENTRY_HEADER_SIZE`. -/
def dirEntryHeaderSize : Nat := 8

/-! ## Records -/

/-- The fields of `Superblock` the driver reads or updates. -/
structure Superblock where
  totalBlocks : Nat
  unallocatedBlocks : Nat
  unallocatedInodes : Nat
  firstDataBlock : Nat
  blockSizeLog : Nat
  blocksPerGroup : Nat
  inodesPerGroup : Nat
  magic : Nat
  versionMajor : Nat
  inodeSize : Nat
  deriving DecidableEq, Repr

/-- `size_of::<BlockGroupDescriptor>()`. -/
def bgdSize : Nat := 32

/-- The fields of `BlockGroupDescriptor` the driver reads or updates: the
first eighteen of its 32 bytes (`repr(C, packed)`), three `u32` and three
`u16`. -/
structure BlockGroupDescriptor where
  blockBitmap : Nat
  inodeBitmap : Nat
  inodeTable : Nat
  freeBlocksCount : Nat
  freeInodesCount : Nat
  usedDirsCount : Nat
  deriving DecidableEq, Repr

/-- The bytes of a descriptor's fields, each little-endian in its width. -/
def BlockGroupDescriptor.encode (bgd : BlockGroupDescriptor) : List UInt8 :=
  leBytes bgd.blockBitmap 4 ++ leBytes bgd.inodeBitmap 4 ++ leBytes bgd.inodeTable 4 ++
    leBytes bgd.freeBlocksCount 2 ++ leBytes bgd.freeInodesCount 2 ++ leBytes bgd.usedDirsCount 2

/-- A descriptor read from its bytes: `read_unaligned` of the packed
struct. -/
def BlockGroupDescriptor.decode (bytes : List UInt8) : BlockGroupDescriptor :=
  ⟨leNat (bytes.take 4), leNat ((bytes.drop 4).take 4), leNat ((bytes.drop 8).take 4),
    leNat ((bytes.drop 12).take 2), leNat ((bytes.drop 14).take 2), leNat ((bytes.drop 16).take 2)⟩

/-- Each field of the descriptor is below its width. -/
def BlockGroupDescriptor.Fits (bgd : BlockGroupDescriptor) : Prop :=
  bgd.blockBitmap < 2 ^ 32 ∧ bgd.inodeBitmap < 2 ^ 32 ∧ bgd.inodeTable < 2 ^ 32 ∧
    bgd.freeBlocksCount < 2 ^ 16 ∧ bgd.freeInodesCount < 2 ^ 16 ∧ bgd.usedDirsCount < 2 ^ 16

/-- The fields of `Inode` the driver reads or updates; the time stamps are
left out. -/
structure Inode where
  typePerms : Nat
  sizeLower : Nat
  hardLinks : Nat
  sectorsUsed : Nat
  directBlocks : Vector Nat 12
  indirectBlock : Nat
  doubleIndirectBlock : Nat
  tripleIndirectBlock : Nat
  sizeUpper : Nat
  deriving DecidableEq, Repr

/-- `Inode::default()`: all zero. -/
def Inode.default : Inode :=
  ⟨0, 0, 0, 0, Vector.replicate 12 0, 0, 0, 0, 0⟩

/-- `type_perms & 0xF000`. -/
def Inode.kind (inode : Inode) : Nat :=
  inode.typePerms &&& 0xF000

/-- The state `Ext2Filesystem::new` derives from the superblock. -/
structure Ext2State where
  superblock : Superblock
  blockSize : Nat
  inodesPerGroup : Nat
  inodeSize : Nat
  blockGroupCount : Nat
  blocksPerGroup : Nat
  firstDataBlock : Nat
  deriving DecidableEq, Repr

/-- The block device: its blocks, and the superblock and the inodes, kept
as records. -/
structure Device where
  blocks : Nat → List UInt8
  superblock : Superblock
  inodes : Nat → Inode

/-- `Ext2Filesystem`: the device and the in-memory state. -/
structure Ext2Filesystem where
  dev : Device
  state : Ext2State

/-- The driver's computations. -/
abbrev Ext2M := EStateM FsError Ext2Filesystem

/-- `Ext2Filesystem::new` on a device whose superblock is `dev.superblock`. -/
def Ext2Filesystem.new (dev : Device) : Except FsError Ext2Filesystem :=
  let sb := dev.superblock
  if sb.magic ≠ ext2Magic then .error .noFilesystem
  else .ok ⟨dev, ⟨sb, 1024 <<< sb.blockSizeLog, sb.inodesPerGroup,
    if sb.versionMajor ≥ 1 then sb.inodeSize else 128,
    (sb.totalBlocks - sb.firstDataBlock + sb.blocksPerGroup - 1) / sb.blocksPerGroup,
    sb.blocksPerGroup, sb.firstDataBlock⟩⟩

/-! ## Bytes of the device -/

/-- `dev.read_bytes(offset, buf)` for `len` bytes, over blocks of
`blockSize` bytes; a byte past the end of its block reads as zero. -/
def readDeviceBytes (blocks : Nat → List UInt8) (blockSize offset len : Nat) : List UInt8 :=
  (List.range len).map fun i => (blocks ((offset + i) / blockSize)).getD ((offset + i) % blockSize) 0

/-- The bytes of a block that starts at device byte `start`, after `bytes`
are written at device byte `offset`. -/
def writeBytesFrom (offset : Nat) (bytes : List UInt8) (start : Nat) : List UInt8 → List UInt8
  | [] => []
  | x :: xs =>
    (if offset ≤ start ∧ start < offset + bytes.length then bytes.getD (start - offset) x else x) ::
      writeBytesFrom offset bytes (start + 1) xs

/-- `dev.write_bytes(offset, bytes)` over blocks of `blockSize` bytes: each
byte of a block that the range covers is replaced. -/
def writeDeviceBytes (blocks : Nat → List UInt8) (blockSize offset : Nat) (bytes : List UInt8) :
    Nat → List UInt8 :=
  fun b =>
    -- a block the range misses is left as it is
    if b * blockSize + blockSize ≤ offset ∨ offset + bytes.length ≤ b * blockSize then blocks b
    else writeBytesFrom offset bytes (b * blockSize) (blocks b)

/-- `SUPERBLOCK_OFFSET`. -/
def superblockOffset : Nat := 1024

/-- `bgd_offset`: the descriptor table starts at the block after the first
data block, `bgdSize` bytes a descriptor. -/
def bgdOffset (st : Ext2State) (group : Nat) : Nat :=
  (st.firstDataBlock + 1) * st.blockSize + group * bgdSize

/-- The descriptor of group `group` in the blocks `blocks`, as `read_bgd`
reads it. -/
def Ext2State.descriptor (st : Ext2State) (blocks : Nat → List UInt8) (group : Nat) :
    BlockGroupDescriptor :=
  .decode (readDeviceBytes blocks st.blockSize (bgdOffset st group) bgdSize)

/-- The descriptor of group `group` on the device. -/
def Ext2Filesystem.bgd (fs : Ext2Filesystem) (group : Nat) : BlockGroupDescriptor :=
  fs.state.descriptor fs.dev.blocks group

/-- The number of blocks the descriptor table takes. -/
def Ext2State.bgdTableBlocks (st : Ext2State) : Nat :=
  (st.blockGroupCount * bgdSize + st.blockSize - 1) / st.blockSize

/-- Block `b` holds part of the descriptor table. -/
def Ext2State.InBgdTable (st : Ext2State) (b : Nat) : Prop :=
  st.firstDataBlock + 1 ≤ b ∧ b < st.firstDataBlock + 1 + st.bgdTableBlocks

instance (st : Ext2State) (b : Nat) : Decidable (st.InBgdTable b) :=
  inferInstanceAs (Decidable (_ ∧ _))

section Bytes

variable {blocks : Nat → List UInt8} {blockSize offset : Nat} {bytes : List UInt8}

@[simp] theorem length_writeBytesFrom (start : Nat) (l : List UInt8) :
    (writeBytesFrom offset bytes start l).length = l.length := by
  induction l generalizing start with
  | nil => rfl
  | cons x xs ih => simp [writeBytesFrom, ih]

theorem getElem?_writeBytesFrom (start : Nat) (l : List UInt8) (j : Nat) :
    (writeBytesFrom offset bytes start l)[j]? = l[j]?.map fun x =>
      if offset ≤ start + j ∧ start + j < offset + bytes.length then bytes.getD (start + j - offset) x
      else x := by
  induction l generalizing start j with
  | nil => rfl
  | cons x xs ih =>
    cases j with
    | zero => simp [writeBytesFrom]
    | succ j =>
      -- byte `j + 1` of the block is byte `j` of the rest, which starts one further on
      rw [writeBytesFrom, List.getElem?_cons_succ, List.getElem?_cons_succ, ih,
        Nat.add_assoc, Nat.add_comm 1 j]

@[simp] theorem length_writeDeviceBytes (b : Nat) :
    (writeDeviceBytes blocks blockSize offset bytes b).length = (blocks b).length := by
  unfold writeDeviceBytes
  split <;> simp

/-- A byte of the device after a write: the written byte where the range
covers it, the old one elsewhere. -/
theorem getElem?_writeDeviceBytes {j : Nat} (hj : j < blockSize) (b : Nat) :
    (writeDeviceBytes blocks blockSize offset bytes b)[j]? = (blocks b)[j]?.map fun x =>
      if offset ≤ b * blockSize + j ∧ b * blockSize + j < offset + bytes.length then
        bytes.getD (b * blockSize + j - offset) x
      else x := by
  unfold writeDeviceBytes
  split
  · rename_i hmiss
    -- the range misses the block, so it covers none of its bytes
    cases (blocks b)[j]? with
    | none => rfl
    | some x => rw [Option.map_some, if_neg (by omega)]
  · exact getElem?_writeBytesFrom _ _ _

/-- A block that the range misses keeps its bytes. -/
theorem writeDeviceBytes_of_disjoint {b : Nat}
    (h : b * blockSize + blockSize ≤ offset ∨ offset + bytes.length ≤ b * blockSize) :
    writeDeviceBytes blocks blockSize offset bytes b = blocks b := by
  unfold writeDeviceBytes
  rw [if_pos h]

@[simp] theorem length_readDeviceBytes (len : Nat) :
    (readDeviceBytes blocks blockSize offset len).length = len := by
  simp [readDeviceBytes]

theorem readDeviceBytes_add (m n : Nat) :
    readDeviceBytes blocks blockSize offset (m + n) =
      readDeviceBytes blocks blockSize offset m ++ readDeviceBytes blocks blockSize (offset + m) n := by
  simp [readDeviceBytes, List.range_add, Nat.add_assoc]

theorem readDeviceBytes_congr {blocks' : Nat → List UInt8} {len : Nat}
    (h : ∀ i < len, blocks' ((offset + i) / blockSize) = blocks ((offset + i) / blockSize)) :
    readDeviceBytes blocks' blockSize offset len = readDeviceBytes blocks blockSize offset len :=
  List.map_congr_left fun i hi => by rw [h i (List.mem_range.mp hi)]

/-- A read of the bytes a write covers returns them, on blocks of
`blockSize` bytes. -/
theorem readDeviceBytes_writeDeviceBytes_self (hbs : 0 < blockSize)
    (hlen : ∀ i < bytes.length, (blocks ((offset + i) / blockSize)).length = blockSize) :
    readDeviceBytes (writeDeviceBytes blocks blockSize offset bytes) blockSize offset bytes.length =
      bytes := by
  apply List.ext_getElem (by simp)
  intro i hi _
  have hi' : i < bytes.length := by simpa using hi
  have hmod : (offset + i) % blockSize < (blocks ((offset + i) / blockSize)).length := by
    rw [hlen i hi']
    exact Nat.mod_lt _ hbs
  simp only [readDeviceBytes, List.getElem_map, List.getElem_range, List.getD_eq_getElem?_getD,
    getElem?_writeDeviceBytes (Nat.mod_lt _ hbs), List.getElem?_eq_getElem hmod, Option.map_some,
    Option.getD_some, Nat.div_add_mod']
  rw [if_pos (by omega), Nat.add_sub_cancel_left, List.getElem?_eq_getElem hi', Option.getD_some]

/-- A read of bytes that a write does not cover returns what they were. -/
theorem readDeviceBytes_writeDeviceBytes_of_disjoint (hbs : 0 < blockSize) {offset' len : Nat}
    (h : offset' + len ≤ offset ∨ offset + bytes.length ≤ offset') :
    readDeviceBytes (writeDeviceBytes blocks blockSize offset bytes) blockSize offset' len =
      readDeviceBytes blocks blockSize offset' len := by
  refine List.map_congr_left fun i hi => ?_
  have hi' := List.mem_range.mp hi
  rw [List.getD_eq_getElem?_getD, List.getD_eq_getElem?_getD,
    getElem?_writeDeviceBytes (Nat.mod_lt _ hbs), Nat.div_add_mod']
  cases (blocks ((offset' + i) / blockSize))[(offset' + i) % blockSize]? with
  | none => rfl
  | some x => rw [Option.map_some, if_neg (by omega)]

end Bytes

section Descriptors

@[simp] theorem BlockGroupDescriptor.length_encode (bgd : BlockGroupDescriptor) :
    bgd.encode.length = 18 := by
  simp [BlockGroupDescriptor.encode]

/-- A descriptor is read back from its bytes, whatever follows them. -/
theorem BlockGroupDescriptor.decode_encode_append {bgd : BlockGroupDescriptor} (h : bgd.Fits)
    (rest : List UInt8) : decode (bgd.encode ++ rest) = bgd := by
  obtain ⟨a, b, c, d, e, f⟩ := bgd
  obtain ⟨h₁, h₂, h₃, h₄, h₅, h₆⟩ :
      a < 2 ^ 32 ∧ b < 2 ^ 32 ∧ c < 2 ^ 32 ∧ d < 2 ^ 16 ∧ e < 2 ^ 16 ∧ f < 2 ^ 16 := h
  -- each field is read back from its bytes, digit by digit
  simp only [decode, encode, List.append_assoc, List.take_append, List.drop_append, length_leBytes]
  simp
  omega

/-- A descriptor read from any bytes fits its widths. -/
theorem BlockGroupDescriptor.fits_decode (bytes : List UInt8) : (decode bytes).Fits := by
  -- each field is read from at most its width of bytes
  have hle : ∀ (l : List UInt8) (k : Nat), leNat (l.take k) < 2 ^ (8 * k) := fun l k =>
    calc leNat (l.take k) < 256 ^ (l.take k).length := leNat_lt _
      _ ≤ 256 ^ k := Nat.pow_le_pow_right (by decide) (List.length_take_le _ _)
      _ = 2 ^ (8 * k) := by rw [pow_mul]; norm_num
  exact ⟨hle _ 4, hle _ 4, hle _ 4, hle _ 2, hle _ 2, hle _ 2⟩

variable {blocks : Nat → List UInt8}

@[simp] theorem Ext2State.descriptor_with_superblock (st : Ext2State) (sb : Superblock) :
    ({ st with superblock := sb } : Ext2State).descriptor = st.descriptor := rfl

theorem Ext2State.fits_descriptor (st : Ext2State) (group : Nat) : (st.descriptor blocks group).Fits :=
  BlockGroupDescriptor.fits_decode _

theorem Ext2Filesystem.fits_bgd (fs : Ext2Filesystem) (group : Nat) : (fs.bgd group).Fits :=
  fs.state.fits_descriptor group

/-- The bytes of the descriptor of a group lie in the descriptor table. -/
theorem Ext2State.inBgdTable_div (st : Ext2State) (hbs : 0 < st.blockSize) {g i : Nat}
    (hg : g < st.blockGroupCount) (hi : i < bgdSize) :
    st.InBgdTable ((bgdOffset st g + i) / st.blockSize) := by
  have hoff : bgdOffset st g + i = (g * bgdSize + i) + st.blockSize * (st.firstDataBlock + 1) := by
    unfold bgdOffset
    ring
  rw [hoff, Nat.add_mul_div_left _ _ hbs]
  -- the byte comes before the end of the table
  have hlt : g * bgdSize + i + 1 ≤ st.blockGroupCount * bgdSize := by
    calc g * bgdSize + i + 1 ≤ (g + 1) * bgdSize := by rw [Nat.add_mul]; omega
      _ ≤ st.blockGroupCount * bgdSize := Nat.mul_le_mul_right _ hg
  have hdiv : (g * bgdSize + i) / st.blockSize + 1 ≤ st.bgdTableBlocks := by
    have := Nat.div_mul_le_self (g * bgdSize + i) st.blockSize
    refine (Nat.le_div_iff_mul_le hbs).mpr ?_
    rw [Nat.add_mul, Nat.one_mul]
    omega
  generalize (g * bgdSize + i) / st.blockSize = q at hdiv
  exact ⟨by omega, by omega⟩

/-- A descriptor is read from the descriptor table alone. -/
theorem Ext2State.descriptor_congr (st : Ext2State) (hbs : 0 < st.blockSize) {blocks' : Nat → List UInt8}
    (h : ∀ b, st.InBgdTable b → blocks' b = blocks b) {g : Nat} (hg : g < st.blockGroupCount) :
    st.descriptor blocks' g = st.descriptor blocks g := by
  unfold Ext2State.descriptor
  rw [readDeviceBytes_congr fun i hi => h _ (st.inBgdTable_div hbs hg hi)]

/-- The descriptor table covers the descriptors of all groups. -/
theorem Ext2State.count_mul_le_bgdTableBlocks (st : Ext2State) (hbs : 0 < st.blockSize) :
    st.blockGroupCount * bgdSize ≤ st.bgdTableBlocks * st.blockSize := by
  unfold Ext2State.bgdTableBlocks
  have hdiv := Nat.div_add_mod (st.blockGroupCount * bgdSize + st.blockSize - 1) st.blockSize
  have hmod := Nat.mod_lt (st.blockGroupCount * bgdSize + st.blockSize - 1) hbs
  rw [Nat.mul_comm] at hdiv
  omega

/-- A write of a descriptor lands in the descriptor table alone. -/
theorem Ext2State.writeDeviceBytes_bgd_of_not_inBgdTable (st : Ext2State) (hbs : 0 < st.blockSize)
    {g0 b : Nat} (hg0 : g0 < st.blockGroupCount) (hb : ¬ st.InBgdTable b) (bgd : BlockGroupDescriptor) :
    writeDeviceBytes blocks st.blockSize (bgdOffset st g0) bgd.encode b = blocks b := by
  apply writeDeviceBytes_of_disjoint
  have htable := st.count_mul_le_bgdTableBlocks hbs
  have hg0' : (g0 + 1) * bgdSize ≤ st.blockGroupCount * bgdSize := Nat.mul_le_mul_right _ hg0
  simp only [Ext2State.InBgdTable, not_and_or, not_le, not_lt] at hb
  simp only [bgdOffset, BlockGroupDescriptor.length_encode, bgdSize] at hg0' htable ⊢
  rcases hb with hb | hb
  · -- a block before the table ends where the table starts
    left
    have : (b + 1) * st.blockSize ≤ (st.firstDataBlock + 1) * st.blockSize := Nat.mul_le_mul_right _ hb
    rw [Nat.add_mul, Nat.one_mul] at this
    omega
  · -- a block after the table starts where the table ends
    right
    have : (st.firstDataBlock + 1 + st.bgdTableBlocks) * st.blockSize ≤ b * st.blockSize :=
      Nat.mul_le_mul_right _ hb
    rw [Nat.add_mul] at this
    omega

/-- The descriptor `write_bgd` writes is read back, and no other group's
changes, on blocks of a block's size. -/
theorem Ext2State.descriptor_writeDeviceBytes (st : Ext2State) (hbs : 0 < st.blockSize)
    (hlen : ∀ b, (blocks b).length = st.blockSize) {g0 : Nat} {bgd : BlockGroupDescriptor}
    (hfits : bgd.Fits) (g : Nat) :
    st.descriptor (writeDeviceBytes blocks st.blockSize (bgdOffset st g0) bgd.encode) g =
      if g = g0 then bgd else st.descriptor blocks g := by
  unfold Ext2State.descriptor
  split
  · rename_i hg
    subst hg
    -- the eighteen bytes of the fields, then the padding and the reserved bytes
    rw [show bgdSize = bgd.encode.length + 14 by simp [bgdSize], readDeviceBytes_add,
      readDeviceBytes_writeDeviceBytes_self hbs fun i _ => hlen _,
      BlockGroupDescriptor.decode_encode_append hfits]
  · rename_i hg
    -- descriptors of distinct groups are `bgdSize` bytes apart
    rw [readDeviceBytes_writeDeviceBytes_of_disjoint hbs]
    simp only [bgdOffset, bgdSize, BlockGroupDescriptor.length_encode]
    rcases Nat.lt_or_gt_of_ne hg with hlt | hlt
    · left
      omega
    · right
      omega

end Descriptors

/-! ## Block and record I/O -/

/-- The state the driver keeps. -/
def getState : Ext2M Ext2State := do
  return (← get).state

/-- `read_block`. -/
def readBlock (blockNum : Nat) : Ext2M (List UInt8) := do
  return (← get).dev.blocks blockNum

/-- `write_block`: a buffer of another size than a block is refused. -/
def writeBlock (blockNum : Nat) (data : List UInt8) : Ext2M Unit := do
  let fs ← get
  if data.length ≠ fs.state.blockSize then throw .internal
  set { fs with dev.blocks := fun b => if b = blockNum then data else fs.dev.blocks b }

/-- `write_superblock`: the in-memory superblock goes to the device. -/
def writeSuperblock : Ext2M Unit :=
  modify fun fs => { fs with dev.superblock := fs.state.superblock }

/-- `read_bgd`: the descriptor's `bgdSize` bytes at `bgd_offset`. -/
def readBgd (group : Nat) : Ext2M BlockGroupDescriptor := do
  return (← get).bgd group

/-- `write_bgd`: the descriptor's bytes at `bgd_offset`. The source writes
all `bgdSize` bytes of a descriptor it read before, with the padding and
the reserved bytes as they were read; the model writes the fields and
leaves those bytes on the device. -/
def writeBgd (group : Nat) (bgd : BlockGroupDescriptor) : Ext2M Unit :=
  modify fun fs => { fs with
    dev.blocks := writeDeviceBytes fs.dev.blocks fs.state.blockSize (bgdOffset fs.state group) bgd.encode }

/-- `read_inode`: inode `0` does not exist. -/
def readInode (inodeNum : Nat) : Ext2M Inode := do
  if inodeNum = 0 then throw .notFound
  return (← get).dev.inodes inodeNum

/-- `write_inode`. -/
def writeInode (inodeNum : Nat) (inode : Inode) : Ext2M Unit := do
  if inodeNum = 0 then throw .notFound
  modify fun fs => { fs with dev.inodes := fun n => if n = inodeNum then inode else fs.dev.inodes n }

/-- A write of one entry, as `write_block` and `write_inode` compute it, is
an update of the function. -/
theorem update_eq_ite {α β : Type} [DecidableEq α] (f : α → β) (a : α) (v : β) :
    Function.update f a v = fun x => if x = a then v else f x :=
  funext fun x => Function.update_apply f a v x

section Reads

theorem readOnly_getState : ReadOnly getState :=
  ReadOnly.bind ReadOnly.get fun _ => ReadOnly.pure _

theorem readOnly_readBlock (blockNum : Nat) : ReadOnly (readBlock blockNum) :=
  ReadOnly.bind ReadOnly.get fun _ => ReadOnly.pure _

theorem readOnly_readInode (inodeNum : Nat) : ReadOnly (readInode inodeNum) := by
  unfold readInode
  dsimp only
  split
  · exact ReadOnly.throw_bind _ _
  · exact ReadOnly.bind ReadOnly.get fun _ => ReadOnly.pure _

end Reads

section Runs

variable {fs : Ext2Filesystem}

@[simp] theorem run_getState : getState.run fs = .ok fs.state fs := rfl

@[simp] theorem run_readBlock (blockNum : Nat) :
    (readBlock blockNum).run fs = .ok (fs.dev.blocks blockNum) fs := rfl

@[simp] theorem run_readBgd (group : Nat) : (readBgd group).run fs = .ok (fs.bgd group) fs := rfl

@[simp] theorem outcome_getState : outcome getState fs = .ok fs.state := rfl

@[simp] theorem outcome_readBlock (blockNum : Nat) :
    outcome (readBlock blockNum) fs = .ok (fs.dev.blocks blockNum) := rfl

@[simp] theorem run_writeBgd (group : Nat) (bgd : BlockGroupDescriptor) :
    (writeBgd group bgd).run fs = .ok () { fs with
      dev.blocks := writeDeviceBytes fs.dev.blocks fs.state.blockSize (bgdOffset fs.state group) bgd.encode } :=
  rfl

@[simp] theorem run_writeSuperblock :
    writeSuperblock.run fs = .ok () { fs with dev.superblock := fs.state.superblock } := rfl

theorem run_writeBlock (blockNum : Nat) (data : List UInt8) :
    (writeBlock blockNum data).run fs =
      if data.length ≠ fs.state.blockSize then .error .internal fs
      else .ok () { fs with dev.blocks := Function.update fs.dev.blocks blockNum data } := by
  by_cases h : data.length = fs.state.blockSize <;> simp [writeBlock, h, update_eq_ite]

end Runs

/-! ## Bitmaps -/

/-- `1 << bit_offset` for a bit of a byte. -/
def bitMask (k : Nat) : UInt8 :=
  1 <<< UInt8.ofNat k

/-- `get_bit`: a bit past the end of the bitmap reads as allocated. -/
def getBit (bitmap : List UInt8) (bit : Nat) : Bool :=
  match bitmap[bit / 8]? with
  | some b => b &&& bitMask (bit % 8) ≠ 0
  | none => true

/-- `set_bit`: a bit past the end of the bitmap is not written. -/
def setBit (bitmap : List UInt8) (bit : Nat) (value : Bool) : List UInt8 :=
  bitmap.modify (bit / 8) fun b =>
    if value then b ||| bitMask (bit % 8) else b &&& ~~~bitMask (bit % 8)

/-- The first clear bit among the first `n`: the scan of the allocators. -/
def firstClearBit (bitmap : List UInt8) (n : Nat) : Option Nat :=
  (List.range n).find? fun bit => !getBit bitmap bit

/-- The number of clear bits among the first `n`. -/
def clearBits (bitmap : List UInt8) (n : Nat) : Nat :=
  (List.range n).countP fun bit => !getBit bitmap bit

section Bits

@[simp] theorem length_setBit (bitmap : List UInt8) (bit : Nat) (value : Bool) :
    (setBit bitmap bit value).length = bitmap.length :=
  List.length_modify ..

theorem toNat_bitMask {k : Nat} (hk : k < 8) : (bitMask k).toNat = 2 ^ k := by
  interval_cases k <;> rfl

theorem and_bitMask_ne_zero (b : UInt8) {k : Nat} (hk : k < 8) :
    b &&& bitMask k ≠ 0 ↔ b.toNat.testBit k = true := by
  rw [ne_eq, ← UInt8.toNat_inj, UInt8.toNat_and, toNat_bitMask hk,
    show (0 : UInt8).toNat = 0 from rfl, Nat.and_two_pow]
  cases b.toNat.testBit k <;> simp

/-- A bit of the bitmap is the bit of its byte. -/
theorem getBit_eq_testBit {bitmap : List UInt8} {bit : Nat} (h : bit / 8 < bitmap.length) :
    getBit bitmap bit = (bitmap[bit / 8]).toNat.testBit (bit % 8) := by
  rw [getBit, List.getElem?_eq_getElem h, Bool.eq_iff_iff, decide_eq_true_iff]
  exact and_bitMask_ne_zero _ (Nat.mod_lt _ (by decide))

theorem getBit_of_length_le {bitmap : List UInt8} {bit : Nat} (h : bitmap.length ≤ bit / 8) :
    getBit bitmap bit = true := by
  simp [getBit, List.getElem?_eq_none h]

theorem testBit_or_bitMask (b : UInt8) {k : Nat} (hk : k < 8) (j : Nat) :
    (b ||| bitMask k).toNat.testBit j = (decide (j = k) || b.toNat.testBit j) := by
  rw [UInt8.toNat_or, Nat.testBit_or, toNat_bitMask hk, Nat.testBit_two_pow]
  grind

theorem testBit_and_not_bitMask (b : UInt8) {k j : Nat} (hk : k < 8) (hj : j < 8) :
    (b &&& ~~~bitMask k).toNat.testBit j = (!decide (j = k) && b.toNat.testBit j) := by
  rw [UInt8.toNat_and, Nat.testBit_and, UInt8.toNat_not, toNat_bitMask hk]
  -- the complement of one bit of a byte, bit by bit
  have hmask : (UInt8.size - 1 - 2 ^ k).testBit j = !decide (j = k) := by
    interval_cases k <;> interval_cases j <;> rfl
  rw [hmask, Bool.and_comm]

/-- The byte `set_bit` writes has the named bit set to `value` and the
others as they were. -/
theorem testBit_setByteBit (b : UInt8) {k j : Nat} (hk : k < 8) (hj : j < 8) (value : Bool) :
    (if value then b ||| bitMask k else b &&& ~~~bitMask k).toNat.testBit j =
      if j = k then value else b.toNat.testBit j := by
  cases value with
  | true =>
    rw [if_pos rfl, testBit_or_bitMask _ hk]
    by_cases h : j = k <;> simp [h]
  | false =>
    rw [if_neg Bool.false_ne_true, testBit_and_not_bitMask _ hk hj]
    by_cases h : j = k <;> simp [h]

/-- `set_bit` changes exactly the bit it names, when that bit is inside the
bitmap. -/
theorem getBit_setBit (bitmap : List UInt8) (bit : Nat) (value : Bool) (j : Nat) :
    getBit (setBit bitmap bit value) j =
      if j = bit ∧ bit / 8 < bitmap.length then value else getBit bitmap j := by
  have hlen := length_setBit bitmap bit value
  by_cases hj : j / 8 < bitmap.length
  · rw [getBit_eq_testBit (hlen ▸ hj), getBit_eq_testBit hj]
    simp only [setBit, List.getElem_modify]
    have hk : bit % 8 < 8 := Nat.mod_lt _ (by decide)
    have hj8 : j % 8 < 8 := Nat.mod_lt _ (by decide)
    by_cases hbyte : bit / 8 = j / 8
    · rw [if_pos hbyte, testBit_setByteBit _ hk hj8]
      -- the same byte: the same bit exactly when the same offset in it
      by_cases hjb : j = bit
      · subst hjb
        simp [hj]
      · have : j % 8 ≠ bit % 8 := fun h => hjb (by omega)
        simp [hjb, this]
    · rw [if_neg hbyte]
      have hjb : j ≠ bit := fun h => hbyte (by rw [h])
      simp [hjb]
  · have hj' : (setBit bitmap bit value).length ≤ j / 8 := by omega
    rw [getBit_of_length_le hj', getBit_of_length_le (by omega)]
    have hjb : ¬(j = bit ∧ bit / 8 < bitmap.length) := fun ⟨h, hb⟩ => hj (h ▸ hb)
    rw [if_neg hjb]

theorem firstClearBit_spec {bitmap : List UInt8} {n bit : Nat} (h : firstClearBit bitmap n = some bit) :
    bit < n ∧ getBit bitmap bit = false := by
  obtain ⟨hp, hmem⟩ := List.find?_some h, List.mem_of_find?_eq_some h
  exact ⟨List.mem_range.mp hmem, by simpa using hp⟩

theorem clearBits_le (bitmap : List UInt8) (n : Nat) : clearBits bitmap n ≤ n :=
  List.countP_le_length.trans (List.length_range ▸ le_rfl)

/-- Two functions that differ only at `i < n`, where the first holds and the
second does not: the first holds once more below `n`. -/
theorem countP_range_of_differ {p q : Nat → Bool} {i n : Nat} (hi : i < n) (hp : p i = true)
    (hq : q i = false) (hpq : ∀ j, j ≠ i → p j = q j) :
    (List.range n).countP p = (List.range n).countP q + 1 := by
  induction n with
  | zero => omega
  | succ n ih =>
    rw [List.range_succ, List.countP_append, List.countP_append]
    by_cases hin : i = n
    · subst hin
      have hrest : (List.range i).countP p = (List.range i).countP q :=
        List.countP_congr fun j hj => by rw [hpq j (List.mem_range.mp hj).ne]
      simp [hrest, hp, hq]
    · have hn : p n = q n := hpq n (Ne.symm hin)
      rw [ih (by omega)]
      simp [hn]
      omega

/-- Setting a clear bit inside the counted range leaves one clear bit fewer. -/
theorem clearBits_setBit_true {bitmap : List UInt8} {bit n : Nat} (hbit : bit < n)
    (hin : bit / 8 < bitmap.length) (hclear : getBit bitmap bit = false) :
    clearBits (setBit bitmap bit true) n + 1 = clearBits bitmap n := by
  unfold clearBits
  refine (countP_range_of_differ hbit (by simp [hclear]) (by simp [getBit_setBit, hin]) ?_).symm
  intro j hj
  simp [getBit_setBit, hj]

/-- Clearing a set bit inside the counted range leaves one clear bit more. -/
theorem clearBits_setBit_false {bitmap : List UInt8} {bit n : Nat} (hbit : bit < n)
    (hin : bit / 8 < bitmap.length) (hset : getBit bitmap bit = true) :
    clearBits (setBit bitmap bit false) n = clearBits bitmap n + 1 := by
  unfold clearBits
  refine countP_range_of_differ hbit (by simp [getBit_setBit, hin]) (by simp [hset]) ?_
  intro j hj
  simp [getBit_setBit, hj]

/-- Clearing a bit that is clear changes nothing: `set_bit` is idempotent. -/
theorem clearBits_setBit_false_of_clear {bitmap : List UInt8} {bit : Nat}
    (hclear : getBit bitmap bit = false) (n : Nat) :
    clearBits (setBit bitmap bit false) n = clearBits bitmap n := by
  unfold clearBits
  refine List.countP_congr fun j _ => ?_
  by_cases hj : j = bit
  · subst hj
    by_cases hin : j / 8 < bitmap.length
    · simp [getBit_setBit, hin, hclear]
    · simp [getBit_setBit, hin]
  · simp [getBit_setBit, hj]

end Bits

/-! ## Allocation -/

/-- The bit scan that `allocate_block` and `allocate_inode` share: the first
clear bit among `bits` of the bitmap in block `bitmapBlock` is set and
returned. -/
def takeFirstClearBit (bitmapBlock bits : Nat) : Ext2M (Option Nat) := do
  let bitmap ← readBlock bitmapBlock
  match firstClearBit bitmap bits with
  | none => return none
  | some bit =>
    writeBlock bitmapBlock (setBit bitmap bit true)
    return some bit

theorem run_takeFirstClearBit_none {fs : Ext2Filesystem} {bitmapBlock bits : Nat}
    (h : firstClearBit (fs.dev.blocks bitmapBlock) bits = none) :
    (takeFirstClearBit bitmapBlock bits).run fs = .ok none fs := by
  simp [takeFirstClearBit, h]

theorem run_takeFirstClearBit_some {fs : Ext2Filesystem} {bitmapBlock bits bit : Nat}
    (h : firstClearBit (fs.dev.blocks bitmapBlock) bits = some bit)
    (hlen : (fs.dev.blocks bitmapBlock).length = fs.state.blockSize) :
    (takeFirstClearBit bitmapBlock bits).run fs = .ok (some bit)
      { fs with
        dev.blocks := Function.update fs.dev.blocks bitmapBlock (setBit (fs.dev.blocks bitmapBlock) bit true) } := by
  simp [takeFirstClearBit, h, run_writeBlock, hlen]

/-- The bit that `free_block` and `free_inode` share: the bit is cleared,
whatever it was. -/
def releaseBit (bitmapBlock bit : Nat) : Ext2M Unit := do
  let bitmap ← readBlock bitmapBlock
  writeBlock bitmapBlock (setBit bitmap bit false)

/-- The group loop of `allocate_block`, from the groups `groups` on;
`unalloc` is the superblock's count read before the loop. -/
def allocateBlockIn (unalloc : Nat) : List Nat → Ext2M Nat
  | [] => throw .noSpace
  | group :: groups => do
    let bgd ← readBgd group
    if bgd.freeBlocksCount = 0 then allocateBlockIn unalloc groups
    else
      let st ← getState
      match ← takeFirstClearBit bgd.blockBitmap st.blocksPerGroup with
      | none => allocateBlockIn unalloc groups
      | some bit =>
        writeBgd group { bgd with freeBlocksCount := bgd.freeBlocksCount - 1 }
        modify fun fs => { fs with state.superblock.unallocatedBlocks := unalloc - 1 }
        writeSuperblock
        let blockNum := st.firstDataBlock + group * st.blocksPerGroup + bit
        -- the new block is handed out zeroed
        writeBlock blockNum (List.replicate st.blockSize 0)
        return blockNum

/-- `allocate_block`. -/
def allocateBlock : Ext2M Nat := do
  let st ← getState
  let unalloc := st.superblock.unallocatedBlocks
  if unalloc = 0 then throw .noSpace
  allocateBlockIn unalloc (List.range st.blockGroupCount)

/-- The group and the bit of block `blockNum` in the block bitmaps. -/
def Ext2State.blockPosition (st : Ext2State) (blockNum : Nat) : Nat × Nat :=
  ((blockNum - st.firstDataBlock) / st.blocksPerGroup, (blockNum - st.firstDataBlock) % st.blocksPerGroup)

theorem Ext2State.blockPosition_of_lt (st : Ext2State) {group bit : Nat} (hbit : bit < st.blocksPerGroup) :
    st.blockPosition (st.firstDataBlock + group * st.blocksPerGroup + bit) = (group, bit) := by
  have hoff : st.firstDataBlock + group * st.blocksPerGroup + bit - st.firstDataBlock =
      bit + st.blocksPerGroup * group := by
    rw [Nat.add_assoc, Nat.add_sub_cancel_left, Nat.add_comm, Nat.mul_comm]
  have hpos : 0 < st.blocksPerGroup := by omega
  rw [Ext2State.blockPosition, hoff, Nat.add_mul_div_left _ _ hpos, Nat.div_eq_of_lt hbit,
    Nat.add_mul_mod_self_left, Nat.mod_eq_of_lt hbit, Nat.zero_add]

@[simp] theorem Ext2State.blockPosition_with_superblock (st : Ext2State) (sb : Superblock) (blockNum : Nat) :
    ({ st with superblock := sb } : Ext2State).blockPosition blockNum = st.blockPosition blockNum := rfl

/-- `free_block`: block `0` is no block; any other has its bit cleared and
its group's and the superblock's counts raised, whether it was allocated or
not. The counts are `u16` and `u32`, and the increments wrap. -/
def freeBlock (blockNum : Nat) : Ext2M Unit := do
  if blockNum = 0 then return
  let st ← getState
  let (group, bit) := st.blockPosition blockNum
  let bgd ← readBgd group
  releaseBit bgd.blockBitmap bit
  writeBgd group { bgd with freeBlocksCount := (bgd.freeBlocksCount + 1) % 2 ^ 16 }
  modify fun fs => { fs with
    state.superblock.unallocatedBlocks := (fs.state.superblock.unallocatedBlocks + 1) % 2 ^ 32 }
  writeSuperblock

/-- The group loop of `allocate_inode`. -/
def allocateInodeIn (unalloc : Nat) (isDir : Bool) : List Nat → Ext2M Nat
  | [] => throw .noSpace
  | group :: groups => do
    let bgd ← readBgd group
    if bgd.freeInodesCount = 0 then allocateInodeIn unalloc isDir groups
    else
      let st ← getState
      match ← takeFirstClearBit bgd.inodeBitmap st.inodesPerGroup with
      | none => allocateInodeIn unalloc isDir groups
      | some bit =>
        writeBgd group { bgd with
          freeInodesCount := bgd.freeInodesCount - 1
          usedDirsCount := if isDir then (bgd.usedDirsCount + 1) % 2 ^ 16 else bgd.usedDirsCount }
        modify fun fs => { fs with state.superblock.unallocatedInodes := unalloc - 1 }
        writeSuperblock
        return group * st.inodesPerGroup + bit + 1

/-- `allocate_inode`. -/
def allocateInode (isDir : Bool) : Ext2M Nat := do
  let st ← getState
  let unalloc := st.superblock.unallocatedInodes
  if unalloc = 0 then throw .noSpace
  allocateInodeIn unalloc isDir (List.range st.blockGroupCount)

/-- `free_inode`: inode `0` is no inode; any other has its bit cleared and
the counts raised, whether it was allocated or not; the increments wrap. -/
def freeInode (inodeNum : Nat) (isDir : Bool) : Ext2M Unit := do
  if inodeNum = 0 then return
  let st ← getState
  let group := (inodeNum - 1) / st.inodesPerGroup
  let bit := (inodeNum - 1) % st.inodesPerGroup
  let bgd ← readBgd group
  releaseBit bgd.inodeBitmap bit
  writeBgd group { bgd with
    freeInodesCount := (bgd.freeInodesCount + 1) % 2 ^ 16
    usedDirsCount := if isDir ∧ bgd.usedDirsCount > 0 then bgd.usedDirsCount - 1
      else bgd.usedDirsCount }
  modify fun fs => { fs with
    state.superblock.unallocatedInodes := (fs.state.superblock.unallocatedInodes + 1) % 2 ^ 32 }
  writeSuperblock

/-! ## The accounting -/

/-- The free counts of the superblock, of the group descriptors and of the
bitmaps agree: each group's counts are the clear bits of its bitmaps, and
the superblock's are their sums over the groups. -/
def CountsAgree (fs : Ext2Filesystem) : Prop :=
  (∀ g < fs.state.blockGroupCount,
    (fs.bgd g).freeBlocksCount = clearBits (fs.dev.blocks (fs.bgd g).blockBitmap) fs.state.blocksPerGroup ∧
      (fs.bgd g).freeInodesCount = clearBits (fs.dev.blocks (fs.bgd g).inodeBitmap) fs.state.inodesPerGroup) ∧
    fs.state.superblock.unallocatedBlocks =
      ((List.range fs.state.blockGroupCount).map fun g => (fs.bgd g).freeBlocksCount).sum ∧
    fs.state.superblock.unallocatedInodes =
      ((List.range fs.state.blockGroupCount).map fun g => (fs.bgd g).freeInodesCount).sum

instance (fs : Ext2Filesystem) : Decidable (CountsAgree fs) := by
  unfold CountsAgree
  infer_instance

end Akuma.Ext2
