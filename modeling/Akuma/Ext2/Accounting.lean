import Akuma.Ext2.Fs

/-!
# Block accounting

What `allocate_block` and `free_block` of `akuma-ext2/src/ext2.rs` do to
the accounting `CountsAgree`: the superblock's `unallocated_blocks`, each
group's `free_blocks_count`, and the clear bits of the block bitmaps that
these count.

Both operations change one bit of one group's block bitmap, write that
group's descriptor back into the descriptor table with its count moved, and
move the superblock's count. `Ext2Filesystem.blockStep` is the state such a
step leaves, `countsAgree_blockStep` says once when it keeps the counts in
agreement, and each operation is an instance of it.

The counts only agree where the image is laid out as a formatted image is
(`Geometry`): blocks of a block's size; each group's block bitmap a block of
its own, outside the descriptor table, with a bit for each block of the
group; fewer than `2 ^ 16` blocks a group and fewer than `2 ^ 32` blocks in
all, so that the `u16` counts of the descriptors and the `u32` counts of
the superblock do not wrap. An allocation also zeroes the block it hands
out, which must then be no metadata block (`IsMetadata`): not the
superblock's, none of the descriptor table, no bitmap and no inode table.
These are marked allocated (`MetadataAllocated`).

Results:
* `freeBlock_keeps_counts`: freeing an allocated block keeps the counts in
  agreement and marks the block free.
* `freeBlock_double_free`: `free_block` does not look at the bit; freeing a
  block that is already free raises the counts with no bit to show for it,
  and they no longer agree.
* `allocateBlock_keeps_counts`: an allocation hands out a block that was
  free and is no metadata block, marks it allocated, and keeps the counts,
  the layout and the marks of the metadata.
* `allocateBlock_ok`: while the superblock counts a free block, an
  allocation succeeds.
-/

namespace Akuma.Ext2

open StateRun

/-! ## The layout -/

/-- The number of blocks each group's inode table takes. -/
def Ext2State.inodeTableBlocks (st : Ext2State) : Nat :=
  (st.inodesPerGroup * st.inodeSize + st.blockSize - 1) / st.blockSize

/-- The layout of a formatted image that the block accounting relies on. -/
structure Geometry (fs : Ext2Filesystem) : Prop where
  blocksPerGroup_pos : 0 < fs.state.blocksPerGroup
  blocksPerGroup_le : fs.state.blocksPerGroup ≤ 8 * fs.state.blockSize
  blocksPerGroup_lt : fs.state.blocksPerGroup < 2 ^ 16
  blocks_lt : fs.state.firstDataBlock + fs.state.blockGroupCount * fs.state.blocksPerGroup < 2 ^ 32
  block_length : ∀ b, (fs.dev.blocks b).length = fs.state.blockSize
  blockBitmap_inj : ∀ g < fs.state.blockGroupCount, ∀ g' < fs.state.blockGroupCount,
    (fs.bgd g).blockBitmap = (fs.bgd g').blockBitmap → g = g'
  blockBitmap_ne_inodeBitmap : ∀ g < fs.state.blockGroupCount, ∀ g' < fs.state.blockGroupCount,
    (fs.bgd g).blockBitmap ≠ (fs.bgd g').inodeBitmap
  blockBitmap_not_table : ∀ g < fs.state.blockGroupCount, ¬ fs.state.InBgdTable (fs.bgd g).blockBitmap
  inodeBitmap_not_table : ∀ g < fs.state.blockGroupCount, ¬ fs.state.InBgdTable (fs.bgd g).inodeBitmap

/-- The metadata blocks of the image: the superblock's, those of the
descriptor table, and each group's bitmaps and inode table. -/
def IsMetadata (fs : Ext2Filesystem) (b : Nat) : Prop :=
  b = superblockOffset / fs.state.blockSize ∨ fs.state.InBgdTable b ∨
    ∃ g < fs.state.blockGroupCount, (fs.bgd g).blockBitmap = b ∨ (fs.bgd g).inodeBitmap = b ∨
      (fs.bgd g).inodeTable ≤ b ∧ b < (fs.bgd g).inodeTable + fs.state.inodeTableBlocks

/-- The metadata blocks are marked allocated, so that no allocation hands
one out. -/
structure MetadataAllocated (fs : Ext2Filesystem) : Prop where
  superblock : blockAllocated fs (superblockOffset / fs.state.blockSize) = true
  bgdTable : ∀ k < fs.state.bgdTableBlocks, blockAllocated fs (fs.state.firstDataBlock + 1 + k) = true
  bitmaps : ∀ g < fs.state.blockGroupCount,
    blockAllocated fs (fs.bgd g).blockBitmap = true ∧ blockAllocated fs (fs.bgd g).inodeBitmap = true
  inodeTable : ∀ g < fs.state.blockGroupCount, ∀ k < fs.state.inodeTableBlocks,
    blockAllocated fs ((fs.bgd g).inodeTable + k) = true

/-- Two images laid out alike: the same state but for the superblock, and
each group's bitmaps and inode table in the same blocks. -/
structure SameLayout (fs fs' : Ext2Filesystem) : Prop where
  state_eq : fs'.state = { fs.state with superblock := fs'.state.superblock }
  blockBitmap_eq : ∀ g < fs.state.blockGroupCount, (fs'.bgd g).blockBitmap = (fs.bgd g).blockBitmap
  inodeBitmap_eq : ∀ g < fs.state.blockGroupCount, (fs'.bgd g).inodeBitmap = (fs.bgd g).inodeBitmap
  inodeTable_eq : ∀ g < fs.state.blockGroupCount, (fs'.bgd g).inodeTable = (fs.bgd g).inodeTable

section Layout

variable {fs fs' : Ext2Filesystem} {b : Nat}

theorem Geometry.blockSize_pos (hgeo : Geometry fs) : 0 < fs.state.blockSize := by
  have := hgeo.blocksPerGroup_pos
  have := hgeo.blocksPerGroup_le
  omega

theorem isMetadata_blockBitmap {g : Nat} (hg : g < fs.state.blockGroupCount) :
    IsMetadata fs (fs.bgd g).blockBitmap :=
  .inr (.inr ⟨g, hg, .inl rfl⟩)

theorem isMetadata_inodeBitmap {g : Nat} (hg : g < fs.state.blockGroupCount) :
    IsMetadata fs (fs.bgd g).inodeBitmap :=
  .inr (.inr ⟨g, hg, .inr (.inl rfl)⟩)

theorem isMetadata_of_inBgdTable (hb : fs.state.InBgdTable b) : IsMetadata fs b :=
  .inr (.inl hb)

/-- Every metadata block is marked. -/
theorem MetadataAllocated.marked (hm : MetadataAllocated fs) (hb : IsMetadata fs b) :
    blockAllocated fs b = true := by
  rcases hb with rfl | ⟨hlo, hhi⟩ | ⟨g, hg, rfl | rfl | ⟨hlo, hhi⟩⟩
  · exact hm.superblock
  · have := hm.bgdTable (b - (fs.state.firstDataBlock + 1)) (by omega)
    rwa [Nat.add_sub_cancel' hlo] at this
  · exact (hm.bitmaps g hg).1
  · exact (hm.bitmaps g hg).2
  · have := hm.inodeTable g hg (b - (fs.bgd g).inodeTable) (by omega)
    rwa [Nat.add_sub_cancel' hlo] at this

/-- A free block is no metadata block. -/
theorem MetadataAllocated.not_isMetadata (hm : MetadataAllocated fs) (hfree : blockAllocated fs b = false) :
    ¬ IsMetadata fs b := fun hb => by
  rw [hm.marked hb] at hfree
  cases hfree

theorem SameLayout.isMetadata_iff (hl : SameLayout fs fs') : IsMetadata fs' b ↔ IsMetadata fs b := by
  unfold IsMetadata
  rw [hl.state_eq]
  -- the groups range over the same bound, and each names the same blocks
  refine or_congr Iff.rfl (or_congr Iff.rfl ⟨fun ⟨g, hg, h⟩ => ⟨g, hg, ?_⟩, fun ⟨g, hg, h⟩ => ⟨g, hg, ?_⟩⟩)
  · rwa [hl.blockBitmap_eq g hg, hl.inodeBitmap_eq g hg, hl.inodeTable_eq g hg] at h
  · rwa [hl.blockBitmap_eq g hg, hl.inodeBitmap_eq g hg, hl.inodeTable_eq g hg]

/-- Whether a block is marked depends on the layout and on the bitmaps
alone. -/
theorem SameLayout.blockAllocated_eq (hl : SameLayout fs fs')
    (hbitmaps : ∀ g < fs.state.blockGroupCount,
      fs'.dev.blocks (fs.bgd g).blockBitmap = fs.dev.blocks (fs.bgd g).blockBitmap) :
    blockAllocated fs' b = blockAllocated fs b := by
  have hpos : fs'.state.blockPosition b = fs.state.blockPosition b := by
    rw [hl.state_eq]
    rfl
  have hcount : fs'.state.blockGroupCount = fs.state.blockGroupCount := by
    rw [hl.state_eq]
  simp only [blockAllocated, hpos, hcount]
  by_cases hg : (fs.state.blockPosition b).1 < fs.state.blockGroupCount
  · rw [hl.blockBitmap_eq _ hg, hbitmaps _ hg]
  · simp [hg]

/-- The marks of the metadata stay on an image laid out alike whose marks
include the old ones. -/
theorem MetadataAllocated.of_sameLayout (hm : MetadataAllocated fs) (hl : SameLayout fs fs')
    (hmono : ∀ b, blockAllocated fs b = true → blockAllocated fs' b = true) : MetadataAllocated fs' := by
  have hst := hl.state_eq
  refine ⟨?_, fun k hk => ?_, fun g hg => ?_, fun g hg k hk => ?_⟩
  · rw [hst]
    exact hmono _ hm.superblock
  · rw [hst] at hk ⊢
    exact hmono _ (hm.bgdTable k hk)
  · rw [hst] at hg
    rw [hl.blockBitmap_eq g hg, hl.inodeBitmap_eq g hg]
    exact (hm.bitmaps g hg).imp (hmono _) (hmono _)
  · rw [hst] at hg hk
    rw [hl.inodeTable_eq g hg]
    exact hmono _ (hm.inodeTable g hg k hk)

/-- The layout carries over to an image laid out alike with blocks of the
same size. -/
theorem Geometry.of_sameLayout (hgeo : Geometry fs) (hl : SameLayout fs fs')
    (hlen : ∀ b, (fs'.dev.blocks b).length = fs.state.blockSize) : Geometry fs' := by
  have hst := hl.state_eq
  have hgc : fs'.state.blockGroupCount = fs.state.blockGroupCount := by
    rw [hst]
  have htab : fs'.state.InBgdTable = fs.state.InBgdTable := by
    rw [hst]
    rfl
  refine ⟨?_, ?_, ?_, ?_, fun b => ?_, fun g hg g' hg' => ?_, fun g hg g' hg' => ?_, fun g hg => ?_,
    fun g hg => ?_⟩
  · rw [hst]
    exact hgeo.blocksPerGroup_pos
  · rw [hst]
    exact hgeo.blocksPerGroup_le
  · rw [hst]
    exact hgeo.blocksPerGroup_lt
  · rw [hst]
    exact hgeo.blocks_lt
  · rw [hst]
    exact hlen b
  · rw [hgc] at hg hg'
    rw [hl.blockBitmap_eq g hg, hl.blockBitmap_eq g' hg']
    exact hgeo.blockBitmap_inj g hg g' hg'
  · rw [hgc] at hg hg'
    rw [hl.blockBitmap_eq g hg, hl.inodeBitmap_eq g' hg']
    exact hgeo.blockBitmap_ne_inodeBitmap g hg g' hg'
  · rw [hgc] at hg
    rw [htab, hl.blockBitmap_eq g hg]
    exact hgeo.blockBitmap_not_table g hg
  · rw [hgc] at hg
    rw [htab, hl.inodeBitmap_eq g hg]
    exact hgeo.inodeBitmap_not_table g hg

/-- A block other than a metadata block is none of them. -/
theorem ne_of_isMetadata {x : Nat} (hb : ¬ IsMetadata fs b) (hx : IsMetadata fs x) : x ≠ b :=
  fun h => hb (h ▸ hx)

/-! ## A write of a block that is no metadata block -/

section Write

variable (hgeo : Geometry fs) (hb : ¬ IsMetadata fs b) (data : List UInt8)
include hgeo hb

/-- Such a write keeps every descriptor. -/
theorem bgd_update_of_not_isMetadata {g : Nat} (hg : g < fs.state.blockGroupCount) :
    ({ fs with dev.blocks := Function.update fs.dev.blocks b data } : Ext2Filesystem).bgd g = fs.bgd g :=
  fs.state.descriptor_congr hgeo.blockSize_pos
    (fun _ hx => Function.update_of_ne (ne_of_isMetadata hb (isMetadata_of_inBgdTable hx)) _ _) hg

theorem sameLayout_update_of_not_isMetadata :
    SameLayout fs { fs with dev.blocks := Function.update fs.dev.blocks b data } := by
  refine ⟨rfl, fun g hg => ?_, fun g hg => ?_, fun g hg => ?_⟩ <;>
    rw [bgd_update_of_not_isMetadata hgeo hb data hg]

/-- Such a write keeps the bitmaps, hence the marks. -/
theorem blockAllocated_update_of_not_isMetadata (x : Nat) :
    blockAllocated { fs with dev.blocks := Function.update fs.dev.blocks b data } x = blockAllocated fs x :=
  (sameLayout_update_of_not_isMetadata hgeo hb data).blockAllocated_eq fun _ hg =>
    Function.update_of_ne (ne_of_isMetadata hb (isMetadata_blockBitmap hg)) _ _

/-- Such a write keeps the counts in agreement. -/
theorem CountsAgree.update_of_not_isMetadata (hc : CountsAgree fs) :
    CountsAgree { fs with dev.blocks := Function.update fs.dev.blocks b data } := by
  have hbgd := fun {g} (hg : g < fs.state.blockGroupCount) => bgd_update_of_not_isMetadata hgeo hb data hg
  obtain ⟨hgroups, hblocks, hinodes⟩ := hc
  refine ⟨fun g hg => ?_, ?_, ?_⟩ <;> dsimp only
  · rw [hbgd hg, Function.update_of_ne (ne_of_isMetadata hb (isMetadata_blockBitmap hg)),
      Function.update_of_ne (ne_of_isMetadata hb (isMetadata_inodeBitmap hg))]
    exact hgroups g hg
  · rw [hblocks]
    exact congrArg List.sum (List.map_congr_left fun g hg => by rw [hbgd (List.mem_range.mp hg)])
  · rw [hinodes]
    exact congrArg List.sum (List.map_congr_left fun g hg => by rw [hbgd (List.mem_range.mp hg)])

end Write

end Layout

/-! ## Through a freshly formatted image -/

theorem geometry_freshImage_length (blocksPerGroup n : Nat) :
    ((freshImage blocksPerGroup).dev.blocks n).length = 1024 := by
  simp only [freshImage, freshDevice]
  split_ifs
  · rw [List.length_append, BlockGroupDescriptor.length_encode, List.length_replicate]
  · rw [List.length_append, List.length_replicate]
    rfl
  · rw [List.length_append, List.length_replicate]
    rfl
  · simp only [newDirBlock, writeBytes, List.length_append, List.length_take, List.length_drop,
      List.length_replicate, DirEntryRaw.bytes, ByteCodec.length_leBytes, List.length_cons, List.length_nil]
    rfl
  · rw [List.length_replicate]

theorem geometry_freshImage : Geometry (freshImage 64) where
  blocksPerGroup_pos := by decide
  blocksPerGroup_le := by decide
  blocksPerGroup_lt := by decide
  blocks_lt := by decide
  block_length := geometry_freshImage_length 64
  blockBitmap_inj := by decide +kernel
  blockBitmap_ne_inodeBitmap := by decide +kernel
  blockBitmap_not_table := by decide +kernel
  inodeBitmap_not_table := by decide +kernel

theorem metadataAllocated_freshImage : MetadataAllocated (freshImage 64) where
  superblock := by decide +kernel
  bgdTable := by decide +kernel
  bitmaps := by decide +kernel
  inodeTable := by decide +kernel

section Step

variable {fs : Ext2Filesystem}

/-- The bit of a block of a group lies inside the group's bitmap. -/
theorem Geometry.bit_lt (hgeo : Geometry fs) (blockNum : Nat) :
    (fs.state.blockPosition blockNum).2 < fs.state.blocksPerGroup ∧
      (fs.state.blockPosition blockNum).2 / 8 <
        (fs.dev.blocks (fs.bgd (fs.state.blockPosition blockNum).1).blockBitmap).length := by
  have hbit : (fs.state.blockPosition blockNum).2 < fs.state.blocksPerGroup :=
    Nat.mod_lt _ hgeo.blocksPerGroup_pos
  have hle := hgeo.blocksPerGroup_le
  rw [hgeo.block_length]
  exact ⟨hbit, by omega⟩

/-- Writing group `g0`'s block bitmap writes no other group's. -/
theorem Geometry.update_blockBitmap (hgeo : Geometry fs) {g0 g : Nat}
    (hg0 : g0 < fs.state.blockGroupCount) (hg : g < fs.state.blockGroupCount) (bitmap : List UInt8) :
    Function.update fs.dev.blocks (fs.bgd g0).blockBitmap bitmap (fs.bgd g).blockBitmap =
      if g = g0 then bitmap else fs.dev.blocks (fs.bgd g).blockBitmap := by
  split
  · rename_i heq
    rw [heq, Function.update_self]
  · rename_i hne
    exact Function.update_of_ne (fun heq => hne (hgeo.blockBitmap_inj g hg g0 hg0 heq)) _ _

/-- Writing a block bitmap writes no inode bitmap. -/
theorem Geometry.update_inodeBitmap (hgeo : Geometry fs) {g0 g : Nat}
    (hg0 : g0 < fs.state.blockGroupCount) (hg : g < fs.state.blockGroupCount) (bitmap : List UInt8) :
    Function.update fs.dev.blocks (fs.bgd g0).blockBitmap bitmap (fs.bgd g).inodeBitmap =
      fs.dev.blocks (fs.bgd g).inodeBitmap :=
  Function.update_of_ne (hgeo.blockBitmap_ne_inodeBitmap g0 hg0 g hg).symm _ _

/-- Writing a block bitmap keeps the descriptor table. -/
theorem Geometry.update_blockBitmap_table (hgeo : Geometry fs) {g0 b : Nat}
    (hg0 : g0 < fs.state.blockGroupCount) (hb : fs.state.InBgdTable b) (bitmap : List UInt8) :
    Function.update fs.dev.blocks (fs.bgd g0).blockBitmap bitmap b = fs.dev.blocks b :=
  Function.update_of_ne (fun heq => hgeo.blockBitmap_not_table g0 hg0 (by rw [← heq]; exact hb)) _ _

/-! ## One step of the accounting -/

/-- The filesystem after a step of the block accounting: the blocks are
`blocks` with group `g0`'s descriptor written into the descriptor table with
free count `free`, and the superblock's count, in memory and on the device,
is `unalloc`. -/
def Ext2Filesystem.blockStep (fs : Ext2Filesystem) (blocks : Nat → List UInt8)
    (g0 free unalloc : Nat) : Ext2Filesystem :=
  let sb := { fs.state.superblock with unallocatedBlocks := unalloc }
  ⟨{ fs.dev with
      blocks := writeDeviceBytes blocks fs.state.blockSize (bgdOffset fs.state g0)
        { fs.bgd g0 with freeBlocksCount := free }.encode
      superblock := sb },
    { fs.state with superblock := sb }⟩

variable {blocks : Nat → List UInt8} {g0 free unalloc : Nat}

@[simp] theorem blockStep_state :
    (fs.blockStep blocks g0 free unalloc).state =
      { fs.state with superblock := { fs.state.superblock with unallocatedBlocks := unalloc } } := rfl

theorem blockStep_blocks :
    (fs.blockStep blocks g0 free unalloc).dev.blocks =
      writeDeviceBytes blocks fs.state.blockSize (bgdOffset fs.state g0)
        { fs.bgd g0 with freeBlocksCount := free }.encode := rfl

/-- Replacing the summand at `g0 < n` moves the sum by the difference. -/
theorem sum_range_ite (f : Nat → Nat) {g0 n : Nat} (hg0 : g0 < n) (v : Nat) :
    ((List.range n).map fun g => if g = g0 then v else f g).sum + f g0 =
      ((List.range n).map f).sum + v := by
  induction n with
  | zero => omega
  | succ n ih =>
    rw [List.range_succ, List.map_append, List.map_append, List.sum_append, List.sum_append]
    by_cases hn : g0 = n
    · subst hn
      have hrest : ((List.range g0).map fun g => if g = g0 then v else f g) = (List.range g0).map f :=
        List.map_congr_left fun g hg => if_neg (List.mem_range.mp hg).ne
      simp [hrest]
      omega
    · have := ih (by omega)
      simp only [List.map_cons, List.map_nil, List.sum_cons, List.sum_nil, if_neg (Ne.symm hn)]
      omega

/-- A sum of values below a bound, one of them strictly, is below the
count times the bound. -/
theorem sum_range_lt {f : Nat → Nat} {m g0 n : Nat} (hle : ∀ g < n, f g ≤ m) (hg0 : g0 < n)
    (hlt : f g0 < m) : ((List.range n).map f).sum < n * m := by
  have hsum := sum_range_ite f hg0 m
  have hbound : ((List.range n).map fun g => if g = g0 then m else f g).sum ≤ n * m := by
    have := List.sum_le_card_nsmul ((List.range n).map fun g => if g = g0 then m else f g) m fun x hx => by
      obtain ⟨g, hg, rfl⟩ := List.mem_map.mp hx
      split
      · exact le_rfl
      · exact hle g (List.mem_range.mp hg)
    simpa using this
  omega

section Keeps

/- What a step needs of its blocks: that they keep the descriptor table and
have a block's size, and that the count fits its `u16`. -/
variable (hgeo : Geometry fs) (hg0 : g0 < fs.state.blockGroupCount)
  (htable : ∀ b, fs.state.InBgdTable b → blocks b = fs.dev.blocks b)
  (hlen : ∀ b, (blocks b).length = fs.state.blockSize) (hfree : free < 2 ^ 16)
include hgeo hg0 htable hlen hfree

omit hg0 in
/-- The descriptors after a step: group `g0`'s with its new count, the
others as they were. -/
theorem bgd_blockStep {g : Nat} (hg : g < fs.state.blockGroupCount) :
    (fs.blockStep blocks g0 free unalloc).bgd g =
      if g = g0 then { fs.bgd g0 with freeBlocksCount := free } else fs.bgd g := by
  have hfits : ({ fs.bgd g0 with freeBlocksCount := free } : BlockGroupDescriptor).Fits := by
    obtain ⟨h₁, h₂, h₃, -, h₅, h₆⟩ := fs.fits_bgd g0
    exact ⟨h₁, h₂, h₃, hfree, h₅, h₆⟩
  rw [Ext2Filesystem.bgd, blockStep_state, Ext2State.descriptor_with_superblock, blockStep_blocks,
    fs.state.descriptor_writeDeviceBytes hgeo.blockSize_pos hlen hfits]
  split
  · rfl
  · exact fs.state.descriptor_congr hgeo.blockSize_pos htable hg

omit hg0 in
/-- A step keeps every group's bitmaps and inode table where they were. -/
theorem sameLayout_blockStep : SameLayout fs (fs.blockStep blocks g0 free unalloc) := by
  refine ⟨rfl, fun g hg => ?_, fun g hg => ?_, fun g hg => ?_⟩ <;>
  · rw [bgd_blockStep hgeo htable hlen hfree hg]
    split
    · rename_i h
      rw [h]
    · rfl

omit htable hlen hfree in
/-- A step writes the descriptor table alone beyond `blocks`. -/
theorem blockStep_blocks_of_not_table {b : Nat} (hb : ¬ fs.state.InBgdTable b) :
    (fs.blockStep blocks g0 free unalloc).dev.blocks b = blocks b :=
  fs.state.writeDeviceBytes_bgd_of_not_inBgdTable hgeo.blockSize_pos hg0 hb _

/-- Which blocks a step leaves allocated: those whose bits the new blocks
set. -/
theorem blockAllocated_blockStep (blockNum : Nat) :
    blockAllocated (fs.blockStep blocks g0 free unalloc) blockNum =
      decide ((fs.state.blockPosition blockNum).1 < fs.state.blockGroupCount ∧
        getBit (blocks (fs.bgd (fs.state.blockPosition blockNum).1).blockBitmap)
          (fs.state.blockPosition blockNum).2 = true) := by
  have hl : SameLayout fs (fs.blockStep blocks g0 free unalloc) :=
    sameLayout_blockStep hgeo htable hlen hfree
  simp only [blockAllocated, blockStep_state, Ext2State.blockPosition_with_superblock]
  by_cases hg : (fs.state.blockPosition blockNum).1 < fs.state.blockGroupCount
  · have hbm : (fs.blockStep blocks g0 free unalloc).dev.blocks
        ((fs.blockStep blocks g0 free unalloc).bgd (fs.state.blockPosition blockNum).1).blockBitmap =
        blocks (fs.bgd (fs.state.blockPosition blockNum).1).blockBitmap := by
      rw [hl.blockBitmap_eq _ hg, blockStep_blocks_of_not_table hgeo hg0
        (hgeo.blockBitmap_not_table _ hg)]
    simp only [hbm]
  · simp [hg]

omit hg0 in
/-- A step keeps the layout. -/
theorem Geometry.blockStep : Geometry (fs.blockStep blocks g0 free unalloc) :=
  hgeo.of_sameLayout (sameLayout_blockStep hgeo htable hlen hfree) fun b => by
    rw [blockStep_blocks, length_writeDeviceBytes, hlen]

/-- A step keeps the counts in agreement when it leaves every other bitmap
as it was, gives group `g0` the clear bits of its new bitmap as its count,
and moves the superblock's count by as much. -/
theorem countsAgree_blockStep (hc : CountsAgree fs)
    (hbitmaps : ∀ g < fs.state.blockGroupCount, g ≠ g0 →
      blocks (fs.bgd g).blockBitmap = fs.dev.blocks (fs.bgd g).blockBitmap)
    (hinodes : ∀ g < fs.state.blockGroupCount,
      blocks (fs.bgd g).inodeBitmap = fs.dev.blocks (fs.bgd g).inodeBitmap)
    (hcount : free = clearBits (blocks (fs.bgd g0).blockBitmap) fs.state.blocksPerGroup)
    (hunalloc : unalloc + (fs.bgd g0).freeBlocksCount = fs.state.superblock.unallocatedBlocks + free) :
    CountsAgree (fs.blockStep blocks g0 free unalloc) := by
  obtain ⟨hgroups, hblocks, hinodeSum⟩ := hc
  have hbgd : ∀ {g}, g < fs.state.blockGroupCount → (fs.blockStep blocks g0 free unalloc).bgd g =
      if g = g0 then { fs.bgd g0 with freeBlocksCount := free } else fs.bgd g :=
    bgd_blockStep hgeo htable hlen hfree
  -- the bitmaps lie outside the descriptor table, which is all the step writes beyond `blocks`
  have hbm : ∀ g < fs.state.blockGroupCount, (fs.blockStep blocks g0 free unalloc).dev.blocks
      (fs.bgd g).blockBitmap = blocks (fs.bgd g).blockBitmap := fun g hg =>
    blockStep_blocks_of_not_table hgeo hg0 (hgeo.blockBitmap_not_table g hg)
  have him : ∀ g < fs.state.blockGroupCount, (fs.blockStep blocks g0 free unalloc).dev.blocks
      (fs.bgd g).inodeBitmap = fs.dev.blocks (fs.bgd g).inodeBitmap := fun g hg => by
    rw [blockStep_blocks_of_not_table hgeo hg0 (hgeo.inodeBitmap_not_table g hg),
      hinodes g hg]
  simp only [CountsAgree, blockStep_state]
  refine ⟨fun g hg => ?_, ?_, ?_⟩
  · rw [hbgd hg]
    by_cases hg' : g = g0
    · subst hg'
      rw [if_pos rfl]
      exact ⟨by rw [hbm g hg]; exact hcount, by rw [him g hg]; exact (hgroups g hg).2⟩
    · rw [if_neg hg']
      exact ⟨by rw [hbm g hg, hbitmaps g hg hg']; exact (hgroups g hg).1,
        by rw [him g hg]; exact (hgroups g hg).2⟩
  · -- group `g0`'s count replaced in the sum
    have hmap : ((List.range fs.state.blockGroupCount).map fun g =>
        ((fs.blockStep blocks g0 free unalloc).bgd g).freeBlocksCount) =
        (List.range fs.state.blockGroupCount).map fun g =>
          if g = g0 then free else (fs.bgd g).freeBlocksCount :=
      List.map_congr_left fun g hg => by
        rw [hbgd (List.mem_range.mp hg)]
        split <;> rfl
    have hsum := sum_range_ite (fun g => (fs.bgd g).freeBlocksCount) hg0 free
    rw [hmap]
    omega
  · rw [hinodeSum]
    refine congrArg List.sum (List.map_congr_left fun g hg => ?_)
    rw [hbgd (List.mem_range.mp hg)]
    split
    · rename_i h
      rw [h]
    · rfl

end Keeps

/-! ## `free_block` -/

/-- `free_block` of a block other than `0` whose group's bitmap has a
block's size: the bit is cleared, and the counts of the group and of the
superblock raised by one, each modulo its width. -/
theorem freeBlock_run {blockNum : Nat} (h0 : blockNum ≠ 0)
    (hlen : (fs.dev.blocks (fs.bgd (fs.state.blockPosition blockNum).1).blockBitmap).length =
      fs.state.blockSize) :
    let group := (fs.state.blockPosition blockNum).1
    let bitmapBlock := (fs.bgd group).blockBitmap
    (freeBlock blockNum).run fs = .ok () (fs.blockStep
      (Function.update fs.dev.blocks bitmapBlock
        (setBit (fs.dev.blocks bitmapBlock) (fs.state.blockPosition blockNum).2 false))
      group (((fs.bgd group).freeBlocksCount + 1) % 2 ^ 16)
      ((fs.state.superblock.unallocatedBlocks + 1) % 2 ^ 32)) := by
  intro group bitmapBlock
  have hset : (setBit (fs.dev.blocks bitmapBlock) (fs.state.blockPosition blockNum).2 false).length =
      fs.state.blockSize := by
    rw [length_setBit, hlen]
  simp [freeBlock, releaseBit, run_writeBlock, h0, hset, Ext2Filesystem.blockStep, group, bitmapBlock]

/-- While a block of group `g0` is marked, the superblock counts fewer free
blocks than the groups hold. -/
theorem CountsAgree.unallocatedBlocks_lt (hc : CountsAgree fs) {g0 bit : Nat}
    (hg0 : g0 < fs.state.blockGroupCount) (hbit : bit < fs.state.blocksPerGroup)
    (hin : bit / 8 < (fs.dev.blocks (fs.bgd g0).blockBitmap).length)
    (hset : getBit (fs.dev.blocks (fs.bgd g0).blockBitmap) bit = true) :
    fs.state.superblock.unallocatedBlocks < fs.state.blockGroupCount * fs.state.blocksPerGroup := by
  have hle : ∀ g < fs.state.blockGroupCount, (fs.bgd g).freeBlocksCount ≤ fs.state.blocksPerGroup :=
    fun g hg => (hc.1 g hg).1 ▸ clearBits_le _ _
  have hlt : (fs.bgd g0).freeBlocksCount < fs.state.blocksPerGroup := by
    have hup := clearBits_setBit_false hbit hin hset
    have := clearBits_le (setBit (fs.dev.blocks (fs.bgd g0).blockBitmap) bit false) fs.state.blocksPerGroup
    rw [(hc.1 g0 hg0).1]
    omega
  rw [hc.2.1]
  exact sum_range_lt hle hg0 hlt

/-- The blocks after a write of group `g0`'s block bitmap, as a step of the
accounting needs them. -/
theorem Geometry.update_blockBitmap_step (hgeo : Geometry fs) {g0 : Nat} (hg0 : g0 < fs.state.blockGroupCount)
    (bitmap : List UInt8) (hbitmap : bitmap.length = fs.state.blockSize) :
    (∀ b, fs.state.InBgdTable b →
      Function.update fs.dev.blocks (fs.bgd g0).blockBitmap bitmap b = fs.dev.blocks b) ∧
    ∀ b, (Function.update fs.dev.blocks (fs.bgd g0).blockBitmap bitmap b).length = fs.state.blockSize := by
  refine ⟨fun b hb => hgeo.update_blockBitmap_table hg0 hb bitmap, fun b => ?_⟩
  by_cases hb : b = (fs.bgd g0).blockBitmap
  · rw [hb, Function.update_self, hbitmap]
  · rw [Function.update_of_ne hb, hgeo.block_length]

/-- The step of the accounting that an allocation of bit `bit` of group
`g0` makes: the bit set, and the counts lowered. -/
def Ext2Filesystem.allocBitStep (fs : Ext2Filesystem) (g0 bit unalloc : Nat) : Ext2Filesystem :=
  fs.blockStep
    (Function.update fs.dev.blocks (fs.bgd g0).blockBitmap (setBit (fs.dev.blocks (fs.bgd g0).blockBitmap) bit true))
    g0 ((fs.bgd g0).freeBlocksCount - 1) unalloc

/-- The filesystem after an allocation of bit `bit` of group `g0`: the step
of the accounting, then the new block zeroed. -/
def Ext2Filesystem.allocStep (fs : Ext2Filesystem) (g0 bit unalloc : Nat) : Ext2Filesystem :=
  { fs.allocBitStep g0 bit unalloc with
    dev.blocks := Function.update (fs.allocBitStep g0 bit unalloc).dev.blocks
      (fs.state.firstDataBlock + g0 * fs.state.blocksPerGroup + bit) (List.replicate fs.state.blockSize 0) }

/-- A successful run of the group loop of `allocate_block`: some group of
the list had a free count other than zero and a clear bit among its first
`blocks_per_group`; that bit is set, the counts lowered, and the block
zeroed. -/
theorem allocateBlockIn_run {unalloc blockNum : Nat} {groups : List Nat} {fs' : Ext2Filesystem}
    (h : (allocateBlockIn unalloc groups).run fs = .ok blockNum fs') :
    ∃ g ∈ groups, ∃ bit, (fs.bgd g).freeBlocksCount ≠ 0 ∧
      firstClearBit (fs.dev.blocks (fs.bgd g).blockBitmap) fs.state.blocksPerGroup = some bit ∧
      blockNum = fs.state.firstDataBlock + g * fs.state.blocksPerGroup + bit ∧
      fs' = fs.allocStep g bit (unalloc - 1) := by
  induction groups with
  | nil => cases h
  | cons g gs ih =>
    simp only [allocateBlockIn, EStateM.run_bind, run_readBgd] at h
    split at h
    · -- a group with no free block is skipped
      obtain ⟨g', hg', rest⟩ := ih h
      exact ⟨g', List.mem_cons_of_mem _ hg', rest⟩
    · rename_i hfree
      simp only [EStateM.run_bind, run_getState] at h
      cases hbit : firstClearBit (fs.dev.blocks (fs.bgd g).blockBitmap) fs.state.blocksPerGroup with
      | none =>
        -- so is a group whose scan finds no clear bit
        rw [run_takeFirstClearBit_none hbit] at h
        obtain ⟨g', hg', rest⟩ := ih h
        exact ⟨g', List.mem_cons_of_mem _ hg', rest⟩
      | some bit =>
        by_cases hlen : (fs.dev.blocks (fs.bgd g).blockBitmap).length = fs.state.blockSize
        · rw [run_takeFirstClearBit_some hbit hlen] at h
          simp [run_writeBlock] at h
          obtain ⟨rfl, rfl⟩ := h
          exact ⟨g, List.mem_cons_self, bit, hfree, hbit, rfl, rfl⟩
        · simp [takeFirstClearBit, hbit, run_writeBlock, setBit, hlen] at h

/-- A successful `allocate_block`: the superblock counted a free block, and
the group loop took the first clear bit of a group with a free count. -/
theorem allocateBlock_run {blockNum : Nat} {fs' : Ext2Filesystem}
    (h : allocateBlock.run fs = .ok blockNum fs') :
    ∃ g < fs.state.blockGroupCount, ∃ bit, (fs.bgd g).freeBlocksCount ≠ 0 ∧
      fs.state.superblock.unallocatedBlocks ≠ 0 ∧
      firstClearBit (fs.dev.blocks (fs.bgd g).blockBitmap) fs.state.blocksPerGroup = some bit ∧
      blockNum = fs.state.firstDataBlock + g * fs.state.blocksPerGroup + bit ∧
      fs' = fs.allocStep g bit (fs.state.superblock.unallocatedBlocks - 1) := by
  simp only [allocateBlock, EStateM.run_bind, run_getState] at h
  split at h
  · cases h
  rename_i hspace
  obtain ⟨g, hg, bit, hfree, hbit, hnum, hfs⟩ := allocateBlockIn_run h
  exact ⟨g, List.mem_range.mp hg, bit, hfree, hspace, hbit, hnum, hfs⟩

/-- What an allocation of `blockNum` from `fs` to `fs'` does: the block was
free and is now marked, no mark is cleared, the block is zeroed, no other
block changes but the metadata, and the layout and the marks of the
metadata stay. -/
structure Allocates (fs fs' : Ext2Filesystem) (blockNum : Nat) : Prop where
  free : blockAllocated fs blockNum = false
  marked : blockAllocated fs' blockNum = true
  keeps_marks : ∀ b, blockAllocated fs b = true → blockAllocated fs' b = true
  zeroed : fs'.dev.blocks blockNum = List.replicate fs.state.blockSize 0
  frame : ∀ b, b ≠ blockNum → ¬ IsMetadata fs b → fs'.dev.blocks b = fs.dev.blocks b
  layout : SameLayout fs fs'
  geometry : Geometry fs'
  metadata : MetadataAllocated fs'

/-- What a step of an allocation needs of its blocks. -/
theorem allocBitStep_blocks (hgeo : Geometry fs) {g : Nat} (hg : g < fs.state.blockGroupCount)
    (bit : Nat) :
    (∀ b, fs.state.InBgdTable b → Function.update fs.dev.blocks (fs.bgd g).blockBitmap
        (setBit (fs.dev.blocks (fs.bgd g).blockBitmap) bit true) b = fs.dev.blocks b) ∧
      (∀ b, (Function.update fs.dev.blocks (fs.bgd g).blockBitmap
        (setBit (fs.dev.blocks (fs.bgd g).blockBitmap) bit true) b).length = fs.state.blockSize) ∧
      (fs.bgd g).freeBlocksCount - 1 < 2 ^ 16 := by
  obtain ⟨htable, hlen'⟩ := hgeo.update_blockBitmap_step hg (setBit (fs.dev.blocks (fs.bgd g).blockBitmap) bit true)
    (by rw [length_setBit, hgeo.block_length])
  have h16 := (fs.fits_bgd g).2.2.2.1
  exact ⟨htable, hlen', lt_of_le_of_lt (Nat.sub_le _ _) h16⟩

section Allocation

variable {g bit : Nat} (unalloc : Nat) (hgeo : Geometry fs) (hmeta : MetadataAllocated fs)
  (hg : g < fs.state.blockGroupCount)
  (hbit : firstClearBit (fs.dev.blocks (fs.bgd g).blockBitmap) fs.state.blocksPerGroup = some bit)
include hgeo hmeta hg hbit

omit hgeo hg in
/-- The block an allocation hands out was free, and is no metadata block. -/
theorem allocStep_free :
    blockAllocated fs (fs.state.firstDataBlock + g * fs.state.blocksPerGroup + bit) = false ∧
      ¬ IsMetadata fs (fs.state.firstDataBlock + g * fs.state.blocksPerGroup + bit) := by
  obtain ⟨hbitlt, hclear⟩ := firstClearBit_spec hbit
  have hfree : blockAllocated fs (fs.state.firstDataBlock + g * fs.state.blocksPerGroup + bit) = false := by
    simp [blockAllocated, fs.state.blockPosition_of_lt hbitlt, hclear]
  exact ⟨hfree, hmeta.not_isMetadata hfree⟩

/-- The new block is no metadata block of the step either. -/
theorem allocBitStep_not_isMetadata :
    SameLayout fs (fs.allocBitStep g bit unalloc) ∧ Geometry (fs.allocBitStep g bit unalloc) ∧
      ¬ IsMetadata (fs.allocBitStep g bit unalloc) (fs.state.firstDataBlock + g * fs.state.blocksPerGroup + bit) := by
  obtain ⟨htable, hlen', h16⟩ := allocBitStep_blocks hgeo hg bit
  have hl : SameLayout fs (fs.allocBitStep g bit unalloc) := sameLayout_blockStep hgeo htable hlen' h16
  exact ⟨hl, hgeo.blockStep htable hlen' h16,
    fun h => (allocStep_free hmeta hbit).2 (hl.isMetadata_iff.mp h)⟩

theorem allocates_allocStep :
    Allocates fs (fs.allocStep g bit unalloc) (fs.state.firstDataBlock + g * fs.state.blocksPerGroup + bit) := by
  obtain ⟨hbitlt, hclear⟩ := firstClearBit_spec hbit
  obtain ⟨hnew, hnotmeta⟩ := allocStep_free hmeta hbit
  obtain ⟨htable, hlen', h16⟩ := allocBitStep_blocks hgeo hg bit
  obtain ⟨hl, hgeo', hnotmeta'⟩ := allocBitStep_not_isMetadata unalloc hgeo hmeta hg hbit
  have hin : bit / 8 < (fs.dev.blocks (fs.bgd g).blockBitmap).length := by
    have := hgeo.blocksPerGroup_le
    rw [hgeo.block_length]
    omega
  -- the zeroed block is no metadata block of the step, so its write keeps layout and marks
  have hl' : SameLayout (fs.allocBitStep g bit unalloc) (fs.allocStep g bit unalloc) :=
    sameLayout_update_of_not_isMetadata hgeo' hnotmeta' _
  have halloc : ∀ x, blockAllocated (fs.allocStep g bit unalloc) x = blockAllocated (fs.allocBitStep g bit unalloc) x :=
    blockAllocated_update_of_not_isMetadata hgeo' hnotmeta' _
  have hstep : ∀ x, blockAllocated (fs.allocBitStep g bit unalloc) x =
      decide ((fs.state.blockPosition x).1 < fs.state.blockGroupCount ∧
        getBit (Function.update fs.dev.blocks (fs.bgd g).blockBitmap
          (setBit (fs.dev.blocks (fs.bgd g).blockBitmap) bit true) (fs.bgd (fs.state.blockPosition x).1).blockBitmap)
          (fs.state.blockPosition x).2 = true) :=
    blockAllocated_blockStep hgeo hg htable hlen' h16
  -- an allocation only sets bits
  have hmono : ∀ x, blockAllocated fs x = true → blockAllocated (fs.allocStep g bit unalloc) x = true := by
    intro x hx
    obtain ⟨hgx, hbx⟩ : (fs.state.blockPosition x).1 < fs.state.blockGroupCount ∧
        getBit (fs.dev.blocks (fs.bgd (fs.state.blockPosition x).1).blockBitmap)
          (fs.state.blockPosition x).2 = true := by
      simpa [blockAllocated] using hx
    rw [halloc, hstep, hgeo.update_blockBitmap hg hgx]
    split
    · rename_i heq
      subst heq
      simp [getBit_setBit, hbx, hgx]
    · simp [hbx, hgx]
  have hlayout : SameLayout fs (fs.allocStep g bit unalloc) :=
    ⟨hl'.state_eq.trans (by rw [hl.state_eq]),
      fun g' hg' => (hl'.blockBitmap_eq g' (hl.state_eq ▸ hg')).trans (hl.blockBitmap_eq g' hg'),
      fun g' hg' => (hl'.inodeBitmap_eq g' (hl.state_eq ▸ hg')).trans (hl.inodeBitmap_eq g' hg'),
      fun g' hg' => (hl'.inodeTable_eq g' (hl.state_eq ▸ hg')).trans (hl.inodeTable_eq g' hg')⟩
  have hblocks : (fs.allocStep g bit unalloc).dev.blocks =
      Function.update (fs.allocBitStep g bit unalloc).dev.blocks
        (fs.state.firstDataBlock + g * fs.state.blocksPerGroup + bit) (List.replicate fs.state.blockSize 0) := rfl
  refine ⟨hnew, ?_, hmono, by rw [hblocks, Function.update_self], fun x hx hxm => ?_, hlayout, ?_,
    hmeta.of_sameLayout hlayout hmono⟩
  · rw [halloc, hstep, fs.state.blockPosition_of_lt hbitlt, hgeo.update_blockBitmap hg hg, if_pos rfl]
    simp [getBit_setBit, hin, hg]
  · have hxt : ¬ fs.state.InBgdTable x := fun h => hxm (isMetadata_of_inBgdTable h)
    rw [hblocks, Function.update_of_ne hx, Ext2Filesystem.allocBitStep,
      blockStep_blocks_of_not_table hgeo hg hxt,
      Function.update_of_ne (ne_of_isMetadata hxm (isMetadata_blockBitmap hg)).symm]
  · refine hgeo.of_sameLayout hlayout fun x => ?_
    rw [hblocks]
    by_cases hx : x = fs.state.firstDataBlock + g * fs.state.blocksPerGroup + bit
    · rw [hx, Function.update_self, List.length_replicate]
    · rw [Function.update_of_ne hx, hgeo'.block_length, hl.state_eq]

/-- An allocation keeps the counts in agreement. -/
theorem countsAgree_allocStep (hc : CountsAgree fs) (hnz : (fs.bgd g).freeBlocksCount ≠ 0)
    (hunalloc : fs.state.superblock.unallocatedBlocks ≠ 0) :
    CountsAgree (fs.allocStep g bit (fs.state.superblock.unallocatedBlocks - 1)) := by
  obtain ⟨hbitlt, hclear⟩ := firstClearBit_spec hbit
  obtain ⟨htable, hlen', h16⟩ := allocBitStep_blocks hgeo hg bit
  obtain ⟨-, hgeo', hnotmeta'⟩ :=
    allocBitStep_not_isMetadata _ hgeo hmeta hg hbit
  have hin : bit / 8 < (fs.dev.blocks (fs.bgd g).blockBitmap).length := by
    have := hgeo.blocksPerGroup_le
    rw [hgeo.block_length]
    omega
  refine CountsAgree.update_of_not_isMetadata hgeo' hnotmeta' _ ?_
  refine countsAgree_blockStep hgeo hg htable hlen' h16 hc
    (fun g' hg' hne => by rw [hgeo.update_blockBitmap hg hg', if_neg hne])
    (fun g' hg' => hgeo.update_inodeBitmap hg hg' _) ?_ (by omega)
  rw [Function.update_self]
  have := clearBits_setBit_true hbitlt hin hclear
  have := (hc.1 g hg).1
  omega

end Allocation

theorem allocateBlock_allocates {blockNum : Nat} {fs' : Ext2Filesystem}
    (hgeo : Geometry fs) (hmeta : MetadataAllocated fs) (h : allocateBlock.run fs = .ok blockNum fs') :
    Allocates fs fs' blockNum := by
  obtain ⟨g, hg, bit, -, -, hbit, rfl, rfl⟩ := allocateBlock_run h
  exact allocates_allocStep _ hgeo hmeta hg hbit

theorem firstClearBit_of_clearBits_pos {bitmap : List UInt8} {n : Nat} (h : 0 < clearBits bitmap n) :
    ∃ bit, firstClearBit bitmap n = some bit := by
  obtain ⟨bit, hmem, hclear⟩ := List.countP_pos_iff.mp h
  exact Option.isSome_iff_exists.mp (List.find?_isSome.mpr ⟨bit, hmem, hclear⟩)

theorem allocateBlockIn_ok {unalloc : Nat} {groups : List Nat} (hc : CountsAgree fs)
    (hgeo : Geometry fs) (hgroups : ∀ g ∈ groups, g < fs.state.blockGroupCount)
    (hfree : ∃ g ∈ groups, (fs.bgd g).freeBlocksCount ≠ 0) :
    ∃ blockNum fs', (allocateBlockIn unalloc groups).run fs = .ok blockNum fs' := by
  induction groups with
  | nil => simp at hfree
  | cons g gs ih =>
    simp only [allocateBlockIn, EStateM.run_bind, run_readBgd]
    split
    · -- the group with a free block is further on
      rename_i hzero
      refine ih (fun g' hg' => hgroups g' (List.mem_cons_of_mem _ hg')) ?_
      obtain ⟨g', hg', hne⟩ := hfree
      rcases List.mem_cons.mp hg' with rfl | hgs
      · exact absurd hzero hne
      · exact ⟨g', hgs, hne⟩
    · rename_i hne
      have hgc := hgroups g List.mem_cons_self
      -- a free count other than zero is a clear bit to find
      obtain ⟨bit, hbit⟩ := firstClearBit_of_clearBits_pos (by rw [← (hc.1 g hgc).1]; omega)
      simp only [EStateM.run_bind, run_getState,
        run_takeFirstClearBit_some hbit (hgeo.block_length _)]
      simp [run_writeBlock]

theorem allocateBlock_ok (hc : CountsAgree fs) (hgeo : Geometry fs)
    (hspace : fs.state.superblock.unallocatedBlocks ≠ 0) :
    ∃ blockNum fs', allocateBlock.run fs = .ok blockNum fs' := by
  simp only [allocateBlock, EStateM.run_bind, run_getState, if_neg hspace]
  refine allocateBlockIn_ok hc hgeo (fun g hg => List.mem_range.mp hg) ?_
  -- the superblock's count is the sum of the groups' counts
  by_contra hnone
  apply hspace
  rw [hc.2.1]
  exact List.sum_eq_zero (by simpa using hnone)

theorem allocateBlock_ok_fresh :
    CountsAgree (freshImage 64) ∧ Geometry (freshImage 64) ∧
      (freshImage 64).state.superblock.unallocatedBlocks ≠ 0 ∧
      ∃ blockNum fs', allocateBlock.run (freshImage 64) = .ok blockNum fs' :=
  have hc : CountsAgree (freshImage 64) := by decide +kernel
  ⟨hc, geometry_freshImage, by decide, allocateBlock_ok hc geometry_freshImage (by decide)⟩

end Step

/-! ## A write that runs out of space -/

/-- `write_file` of a new four-block file on a consistent image with three
free blocks: the inode is allocated and the three blocks are taken before
the fourth allocation fails with `NoSpace`, and nothing is given back. The
inode bitmap then marks inode 11, which no directory entry names and whose
record was never written, and no block is left free. -/
theorem writeFile_no_space_keeps_allocations :
    decide (CountsAgree (freshImage 12)) = true ∧
      allocatedInodes (freshImage 12) = (List.range 10).map (· + 1) ∧
      (freshImage 12).state.superblock.unallocatedBlocks = 3 ∧
      outcome (do
          let r ← attempt (writeFile "/f".toList (List.replicate 3073 7))
          let fs ← get
          let entries ← readDir "/".toList
          pure (r, allocatedInodes fs, fs.state.superblock.unallocatedBlocks, entries.length))
        (freshImage 12) = .ok (.error .noSpace, (List.range 11).map (· + 1), 0, 0) := by
  refine ⟨?_, ?_, ?_, ?_⟩ <;> decide +kernel

end Akuma.Ext2
