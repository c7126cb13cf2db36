import Akuma.Ext2.Accounting

/-!
# Block mapping: `get_block_num` against `ensure_block`

`get_block_num` of `akuma-ext2/src/ext2.rs` reads the device block of a
logical block through the inode's twelve direct pointers, its indirect
block and its double-indirect block; `ensure_block` walks the same path
and allocates the blocks missing on it. Both cut a logical block at
`12`, `12 + p` and `12 + p + p²`, for `p` pointers to a block.

`blockMap` is the mapping `get_block_num` reads, as a function of the
device's blocks (`outcome_getBlockNum`). Over a consistent image (`MapInv`:
the inode's blocks are marked allocated, its pointer blocks are no metadata
blocks and are distinct, and distinct logical blocks map to distinct blocks that
are no pointer blocks), `ensure_block` of a logical block `l` changes the
mapping at `l` alone, to the block it returns, and keeps the image
consistent (`ensureBlock_spec`). Each of its steps is one of four: a hole
of the inode filled with a new block, or of a pointer block, and a new
indirect or double-indirect block, or a new indirect block under the
double-indirect one, each zeroed.
-/

namespace Akuma.Ext2

open Akuma.Vfs ByteCodec StateRun

/-! ## Pointers in a block -/

section Pointers

variable {block : List UInt8} {index : Nat}

theorem length_writeBlockPtr (value : Nat) (hlen : index * 4 + 4 ≤ block.length) :
    (writeBlockPtr block index value).length = block.length := by
  simp [writeBlockPtr]
  omega

/-- A write of a pointer changes no byte outside its four. -/
theorem getElem?_writeBlockPtr (value : Nat) (hlen : index * 4 + 4 ≤ block.length) {m : Nat}
    (hm : m < index * 4 ∨ index * 4 + 4 ≤ m) :
    (writeBlockPtr block index value)[m]? = block[m]? := by
  unfold writeBlockPtr
  rcases hm with hm | hm
  · rw [List.getElem?_append_left (by simp; omega), List.getElem?_append_left (by simp; omega),
      List.getElem?_take_of_lt hm]
  · rw [List.getElem?_append_right (by simp; omega), List.getElem?_drop]
    congr 1
    simp only [List.length_append, List.length_take, length_leBytes]
    omega

theorem readBlockPtr_writeBlockPtr_self {value : Nat} (hlen : index * 4 + 4 ≤ block.length)
    (hv : value < 2 ^ 32) : readBlockPtr (writeBlockPtr block index value) index = value := by
  unfold readBlockPtr writeBlockPtr
  rw [List.append_assoc, List.drop_left' (by simp; omega),
    List.take_left' (length_leBytes value 4), leNat_leBytes]
  exact Nat.mod_eq_of_lt (by simpa using hv)

theorem readBlockPtr_writeBlockPtr_ne (value : Nat) (hlen : index * 4 + 4 ≤ block.length) {j : Nat}
    (hj : j ≠ index) : readBlockPtr (writeBlockPtr block index value) j = readBlockPtr block j := by
  unfold readBlockPtr
  congr 1
  apply List.ext_getElem?
  intro k
  simp only [List.getElem?_take, List.getElem?_drop]
  split
  · rw [getElem?_writeBlockPtr value hlen (by omega)]
  · rfl

theorem readBlockPtr_replicate_zero (n j : Nat) : readBlockPtr (List.replicate n 0) j = 0 := by
  -- every byte read is zero
  suffices ∀ k, leNat (List.replicate k 0) = 0 by
    simp [readBlockPtr, List.drop_replicate, List.take_replicate, this]
  intro k
  induction k with
  | zero => rfl
  | succ k ih => simp [List.replicate_succ, ih]

theorem mem_ptrsOf {ptrsPerBlock x : Nat} :
    x ∈ ptrsOf block ptrsPerBlock ↔ ∃ i < ptrsPerBlock, readBlockPtr block i = x ∧ x ≠ 0 := by
  simp only [ptrsOf, List.mem_filter, List.mem_map, List.mem_range, decide_eq_true_eq]
  constructor
  · rintro ⟨⟨i, hi, rfl⟩, hx⟩
    exact ⟨i, hi, rfl, hx⟩
  · rintro ⟨i, hi, rfl, hx⟩
    exact ⟨⟨i, hi, rfl⟩, hx⟩

@[simp] theorem ptrsOf_replicate_zero (n ptrsPerBlock : Nat) :
    ptrsOf (List.replicate n 0) ptrsPerBlock = [] := by
  simp [ptrsOf, readBlockPtr_replicate_zero]

/-- Writing a new pointer where there was none adds it to the pointers. -/
theorem ptrsOf_writeBlockPtr {ptrsPerBlock value : Nat} (hidx : index < ptrsPerBlock)
    (hlen : ptrsPerBlock * 4 ≤ block.length) (hzero : readBlockPtr block index = 0)
    (hv : value ≠ 0) (hv' : value < 2 ^ 32) :
    (ptrsOf (writeBlockPtr block index value) ptrsPerBlock).Perm (value :: ptrsOf block ptrsPerBlock) := by
  have hlen' : index * 4 + 4 ≤ block.length := by omega
  -- by induction on the number of pointers scanned, up to the one written
  suffices ∀ n, index < n → n ≤ ptrsPerBlock →
      (ptrsOf (writeBlockPtr block index value) n).Perm (value :: ptrsOf block n) from
    this ptrsPerBlock hidx le_rfl
  intro n
  induction n with
  | zero => intro h; omega
  | succ n ih =>
    intro hlt hn
    simp only [ptrsOf, List.range_succ, List.map_append, List.filter_append] at ih ⊢
    rcases Nat.lt_or_ge index n with hin | hin
    · -- the last pointer scanned is not the one written
      have hne : readBlockPtr (writeBlockPtr block index value) n = readBlockPtr block n :=
        readBlockPtr_writeBlockPtr_ne value hlen' (by omega)
      simp only [List.map_cons, List.map_nil, hne]
      exact (ih hin (by omega)).append_right _
    · have heq : index = n := by omega
      subst heq
      have hsame : (List.range index).map (readBlockPtr (writeBlockPtr block index value)) =
          (List.range index).map (readBlockPtr block) :=
        List.map_congr_left fun j hj =>
          readBlockPtr_writeBlockPtr_ne value hlen' (by simp at hj; omega)
      simp [hsame, readBlockPtr_writeBlockPtr_self hlen' hv', hzero, hv, List.perm_append_singleton]

/-- Distinct pointers of a block sit at one index each. -/
theorem eq_of_ptrsOf_nodup {ptrsPerBlock : Nat} (hnd : (ptrsOf block ptrsPerBlock).Nodup) {i j : Nat}
    (hi : i < ptrsPerBlock) (hj : j < ptrsPerBlock) (heq : readBlockPtr block i = readBlockPtr block j)
    (hne : readBlockPtr block i ≠ 0) : i = j := by
  induction ptrsPerBlock with
  | zero => omega
  | succ n ih =>
    simp only [ptrsOf, List.range_succ, List.map_append, List.filter_append] at hnd
    have hnd' : (ptrsOf block n).Nodup := (List.nodup_append.mp hnd).1
    -- the last index against an earlier one
    have hlast : ∀ k < n, readBlockPtr block k = readBlockPtr block n → readBlockPtr block n ≠ 0 → False :=
      fun k hk heq hne => by
        have hmem : readBlockPtr block n ∈ ptrsOf block n := mem_ptrsOf.mpr ⟨k, hk, heq, hne⟩
        have := (List.nodup_append.mp hnd).2.2
        simp only [List.map_cons, List.map_nil, List.filter_cons, List.filter_nil, decide_eq_true_eq,
          if_pos hne] at this
        exact this _ hmem _ List.mem_cons_self rfl
    rcases Nat.lt_or_ge i n with hin | hin <;> rcases Nat.lt_or_ge j n with hjn | hjn
    · exact ih hnd' hin hjn
    · obtain rfl : j = n := by omega
      exact (hlast i hin heq (heq ▸ hne)).elim
    · obtain rfl : i = n := by omega
      exact (hlast j hjn heq.symm hne).elim
    · omega

end Pointers

/-! ## The mapping `get_block_num` reads -/

/-- The block at `index` of pointer block `ptrBlock`, `none` for a hole or
for no pointer block. -/
def indirectMap (blocks : Nat → List UInt8) (ptrBlock index : Nat) : Option Nat :=
  if ptrBlock = 0 then none else blockOrHole (readBlockPtr (blocks ptrBlock) index)

/-- The device block of each logical block of `inode`, as `get_block_num`
reads it off the device's blocks. -/
def blockMap (blocks : Nat → List UInt8) (ptrsPerBlock : Nat) (inode : Inode) (logicalBlock : Nat) :
    Except FsError (Option Nat) :=
  if h : logicalBlock < 12 then .ok (blockOrHole inode.directBlocks[logicalBlock])
  else if logicalBlock - 12 < ptrsPerBlock then .ok (indirectMap blocks inode.indirectBlock (logicalBlock - 12))
  else if logicalBlock - 12 - ptrsPerBlock < ptrsPerBlock * ptrsPerBlock then
    .ok (if inode.doubleIndirectBlock = 0 then none
      else indirectMap blocks
        (readBlockPtr (blocks inode.doubleIndirectBlock) ((logicalBlock - 12 - ptrsPerBlock) / ptrsPerBlock))
        ((logicalBlock - 12 - ptrsPerBlock) % ptrsPerBlock))
  else .error .notSupported

theorem outcome_getBlockNum (inode : Inode) (logicalBlock : Nat) (fs : Ext2Filesystem) :
    outcome (getBlockNum inode logicalBlock) fs =
      blockMap fs.dev.blocks (fs.state.blockSize / 4) inode logicalBlock := by
  unfold getBlockNum blockMap indirectMap
  rw [readOnly_getState.outcome_bind, outcome_getState]
  dsimp only [Except.bind]
  split_ifs <;> try rfl
  -- the pointer read from the double-indirect block decides the rest
  all_goals
    rw [(readOnly_readBlock _).outcome_bind, outcome_readBlock]
    dsimp only [Except.bind]
  · rw [if_pos (by assumption)]
    rfl
  · rw [if_neg (by assumption)]
    rfl

@[simp] theorem blockOrHole_eq_some {block b : Nat} : blockOrHole block = some b ↔ block ≠ 0 ∧ block = b := by
  unfold blockOrHole
  split_ifs with h <;> simp [h]

/-- The pointer blocks of an inode: its indirect block, its double-indirect
block and the indirect blocks that one points to. -/
def ptrBlocks (blocks : Nat → List UInt8) (ptrsPerBlock : Nat) (inode : Inode) : List Nat :=
  (if inode.indirectBlock = 0 then [] else [inode.indirectBlock]) ++
    (if inode.doubleIndirectBlock = 0 then []
      else inode.doubleIndirectBlock :: ptrsOf (blocks inode.doubleIndirectBlock) ptrsPerBlock)

section Frame

variable {blocks blocks' : Nat → List UInt8} {ptrsPerBlock : Nat} {inode : Inode}

theorem ptrBlocks_congr (h : ∀ x ∈ ptrBlocks blocks ptrsPerBlock inode, blocks' x = blocks x) :
    ptrBlocks blocks' ptrsPerBlock inode = ptrBlocks blocks ptrsPerBlock inode := by
  unfold ptrBlocks at h ⊢
  by_cases hd : inode.doubleIndirectBlock = 0
  · rw [if_pos hd, if_pos hd]
  · rw [h inode.doubleIndirectBlock (by simp [hd])]

theorem indirectMap_congr {ptrBlock index : Nat} (h : ptrBlock ≠ 0 → blocks' ptrBlock = blocks ptrBlock) :
    indirectMap blocks' ptrBlock index = indirectMap blocks ptrBlock index := by
  unfold indirectMap
  split_ifs with hp
  · rfl
  · rw [h hp]

/-- The mapping reads no block but the pointer blocks. -/
theorem blockMap_congr (h : ∀ x ∈ ptrBlocks blocks ptrsPerBlock inode, blocks' x = blocks x) :
    blockMap blocks' ptrsPerBlock inode = blockMap blocks ptrsPerBlock inode := by
  funext l
  unfold blockMap
  split_ifs with h12 hind hdbl hd
  · rfl
  · exact congrArg Except.ok (indirectMap_congr fun hi => h _ (by simp [ptrBlocks, hi]))
  · rfl
  · -- the indirect block read under the double-indirect one
    rw [h inode.doubleIndirectBlock (by simp [ptrBlocks, hd])]
    refine congrArg Except.ok (indirectMap_congr fun hptr => h _ ?_)
    have : (l - 12 - ptrsPerBlock) / ptrsPerBlock < ptrsPerBlock := Nat.div_lt_of_lt_mul hdbl
    simp only [ptrBlocks, if_neg hd, List.mem_append, List.mem_cons, mem_ptrsOf]
    exact .inr (.inr ⟨_, this, rfl, hptr⟩)
  · rfl

end Frame

/-! ## A consistent image -/

/-- Every marked block lies in a group. -/
theorem lt_of_blockAllocated {fs : Ext2Filesystem} (hgeo : Geometry fs) {b : Nat}
    (h : blockAllocated fs b = true) :
    b < fs.state.firstDataBlock + fs.state.blockGroupCount * fs.state.blocksPerGroup := by
  have hg : (b - fs.state.firstDataBlock) / fs.state.blocksPerGroup < fs.state.blockGroupCount := by
    simp only [blockAllocated, Ext2State.blockPosition] at h
    exact (of_decide_eq_true h).1
  have := (Nat.div_lt_iff_lt_mul hgeo.blocksPerGroup_pos).mp hg
  omega

/-- An allocation keeps the sizes the mapping depends on. -/
theorem Allocates.sizes_eq {fs fs' : Ext2Filesystem} {b : Nat} (ha : Allocates fs fs' b) :
    fs'.state.blockSize = fs.state.blockSize ∧ fs'.state.firstDataBlock = fs.state.firstDataBlock ∧
      fs'.state.blockGroupCount = fs.state.blockGroupCount ∧
      fs'.state.blocksPerGroup = fs.state.blocksPerGroup := by
  rw [ha.layout.state_eq]
  exact ⟨rfl, rfl, rfl, rfl⟩

/-- The image is consistent around `inode`: the layout of a formatted
image with its metadata marked allocated; every block of the inode marked
allocated and no pointer block a metadata block; distinct logical blocks
mapped to distinct blocks, none of them a pointer block; and distinct
pointer blocks. -/
structure MapInv (fs : Ext2Filesystem) (inode : Inode) : Prop where
  geometry : Geometry fs
  metadata : MetadataAllocated fs
  zero_marked : blockAllocated fs 0 = true
  data_marked : ∀ l b, blockMap fs.dev.blocks (fs.state.blockSize / 4) inode l = .ok (some b) →
    blockAllocated fs b = true
  ptr_marked : ∀ x ∈ ptrBlocks fs.dev.blocks (fs.state.blockSize / 4) inode, blockAllocated fs x = true
  ptr_not_meta : ∀ x ∈ ptrBlocks fs.dev.blocks (fs.state.blockSize / 4) inode, ¬ IsMetadata fs x
  inj : ∀ l₁ l₂ b, blockMap fs.dev.blocks (fs.state.blockSize / 4) inode l₁ = .ok (some b) →
    blockMap fs.dev.blocks (fs.state.blockSize / 4) inode l₂ = .ok (some b) → l₁ = l₂
  not_ptr : ∀ l b, blockMap fs.dev.blocks (fs.state.blockSize / 4) inode l = .ok (some b) →
    b ∉ ptrBlocks fs.dev.blocks (fs.state.blockSize / 4) inode
  ptr_nodup : (ptrBlocks fs.dev.blocks (fs.state.blockSize / 4) inode).Nodup

section Allocation

variable {fs fs' : Ext2Filesystem} {inode : Inode} {b : Nat}

theorem MapInv.block_length (hinv : MapInv fs inode) (x : Nat) : (fs.dev.blocks x).length = fs.state.blockSize :=
  hinv.geometry.block_length x

/-- A free block is no block of the inode: not block `0`, no pointer block
and no block a logical block maps to. -/
theorem MapInv.fresh (hinv : MapInv fs inode) (hfree : blockAllocated fs b = false) :
    b ≠ 0 ∧ b ∉ ptrBlocks fs.dev.blocks (fs.state.blockSize / 4) inode ∧
      ∀ l, blockMap fs.dev.blocks (fs.state.blockSize / 4) inode l ≠ .ok (some b) := by
  refine ⟨fun h0 => ?_, fun hmem => ?_, fun l hl => ?_⟩
  · rw [h0, hinv.zero_marked] at hfree
    cases hfree
  · rw [hinv.ptr_marked b hmem] at hfree
    cases hfree
  · rw [hinv.data_marked l b hl] at hfree
    cases hfree

/-- An allocated block fits a `u32` pointer. -/
theorem MapInv.lt_of_allocates (hinv : MapInv fs inode) (ha : Allocates fs fs' b) : b < 2 ^ 32 := by
  have := lt_of_blockAllocated ha.geometry ha.marked
  obtain ⟨-, hfirst, hcount, hper⟩ := ha.sizes_eq
  rw [hfirst, hcount, hper] at this
  exact lt_trans this hinv.geometry.blocks_lt

/-- An allocation writes no pointer block of the inode. -/
theorem MapInv.frame (hinv : MapInv fs inode) (ha : Allocates fs fs' b) :
    ∀ x ∈ ptrBlocks fs.dev.blocks (fs.state.blockSize / 4) inode, fs'.dev.blocks x = fs.dev.blocks x :=
  fun x hx => ha.frame x (fun hxb => (hinv.fresh ha.free).2.1 (hxb ▸ hx)) (hinv.ptr_not_meta x hx)

/-- An allocation keeps the image consistent around the inode, with the
same mapping and pointer blocks. -/
theorem MapInv.allocate (hinv : MapInv fs inode) (ha : Allocates fs fs' b) :
    MapInv fs' inode ∧
      blockMap fs'.dev.blocks (fs'.state.blockSize / 4) inode =
        blockMap fs.dev.blocks (fs.state.blockSize / 4) inode ∧
      ptrBlocks fs'.dev.blocks (fs'.state.blockSize / 4) inode =
        ptrBlocks fs.dev.blocks (fs.state.blockSize / 4) inode := by
  have hbs := ha.sizes_eq.1
  have hmap := blockMap_congr (hinv.frame ha)
  have hptrs := ptrBlocks_congr (hinv.frame ha)
  rw [hbs]
  refine ⟨⟨ha.geometry, ha.metadata, ha.keeps_marks _ hinv.zero_marked, ?_, ?_, ?_, ?_, ?_, ?_⟩, hmap, hptrs⟩
  all_goals simp only [hbs, hmap, hptrs]
  · exact fun l x hl => ha.keeps_marks x (hinv.data_marked l x hl)
  · exact fun x hx => ha.keeps_marks x (hinv.ptr_marked x hx)
  · -- the metadata stays where it was
    exact fun x hx hmeta => hinv.ptr_not_meta x hx (ha.layout.isMetadata_iff.mp hmeta)
  · exact hinv.inj
  · exact hinv.not_ptr
  · exact hinv.ptr_nodup

end Allocation

/-! ## What each step of `ensure_block` does to the mapping -/

section Steps

variable {blocks : Nat → List UInt8} {ptrsPerBlock : Nat} {inode : Inode}

@[simp] theorem blockMap_addSectors (sectors : Nat) (allocated : Bool) :
    blockMap blocks ptrsPerBlock (inode.addSectors sectors allocated) = blockMap blocks ptrsPerBlock inode := by
  unfold Inode.addSectors
  split <;> rfl

@[simp] theorem ptrBlocks_addSectors (sectors : Nat) (allocated : Bool) :
    ptrBlocks blocks ptrsPerBlock (inode.addSectors sectors allocated) = ptrBlocks blocks ptrsPerBlock inode := by
  unfold Inode.addSectors
  split <;> rfl

/-- What distinct pointer blocks rule out. -/
theorem ptrBlocks_nodup_cases (hnd : (ptrBlocks blocks ptrsPerBlock inode).Nodup) :
    (inode.doubleIndirectBlock ≠ 0 →
      inode.doubleIndirectBlock ∉ ptrsOf (blocks inode.doubleIndirectBlock) ptrsPerBlock ∧
        (ptrsOf (blocks inode.doubleIndirectBlock) ptrsPerBlock).Nodup) ∧
    (inode.indirectBlock ≠ 0 → inode.doubleIndirectBlock ≠ 0 →
      inode.indirectBlock ≠ inode.doubleIndirectBlock ∧
        inode.indirectBlock ∉ ptrsOf (blocks inode.doubleIndirectBlock) ptrsPerBlock) := by
  unfold ptrBlocks at hnd
  refine ⟨fun hd => ?_, fun hi hd => ?_⟩
  · rw [if_neg hd] at hnd
    exact List.nodup_cons.mp (List.nodup_append.mp hnd).2.1
  · rw [if_neg hi, if_neg hd] at hnd
    have hdisj := (List.nodup_append.mp hnd).2.2 _ (List.mem_singleton_self _)
    exact ⟨hdisj _ List.mem_cons_self, fun hmem => hdisj _ (List.mem_cons_of_mem _ hmem) rfl⟩

/-- A hole among the direct blocks filled with `b`. -/
theorem blockMap_setDirect {l b : Nat} (hl : l < 12) (hb : b ≠ 0) (sectors : Nat) :
    blockMap blocks ptrsPerBlock
        { inode with directBlocks := inode.directBlocks.set l b hl, sectorsUsed := sectors } =
      Function.update (blockMap blocks ptrsPerBlock inode) l (.ok (some b)) := by
  funext l'
  by_cases hl' : l' = l
  · subst hl'
    simp [blockMap, hl, blockOrHole, hb]
  · rw [Function.update_of_ne hl']
    unfold blockMap
    split_ifs with h12
    · rw [Vector.getElem_set_ne hl h12 (Ne.symm hl')]
    all_goals rfl

/-- A new indirect block, zeroed, maps nothing yet. -/
theorem blockMap_setIndirect {b : Nat} (hi : inode.indirectBlock = 0)
    (hz : ∀ j, readBlockPtr (blocks b) j = 0) (sectors : Nat) :
    blockMap blocks ptrsPerBlock { inode with indirectBlock := b, sectorsUsed := sectors } =
      blockMap blocks ptrsPerBlock inode := by
  funext l
  unfold blockMap indirectMap
  simp only [hi, hz, if_true]
  split_ifs <;> simp [blockOrHole]

/-- A new double-indirect block, zeroed, maps nothing yet. -/
theorem blockMap_setDouble {b : Nat} (hd : inode.doubleIndirectBlock = 0)
    (hz : ∀ j, readBlockPtr (blocks b) j = 0) (sectors : Nat) :
    blockMap blocks ptrsPerBlock { inode with doubleIndirectBlock := b, sectorsUsed := sectors } =
      blockMap blocks ptrsPerBlock inode := by
  funext l
  unfold blockMap indirectMap
  simp only [hd, hz, if_true]
  split_ifs <;> rfl

/-- A new indirect block under the double-indirect one, zeroed, maps
nothing yet. -/
theorem blockMap_writeDouble {index c : Nat} (hd : inode.doubleIndirectBlock ≠ 0)
    (hnd : (ptrBlocks blocks ptrsPerBlock inode).Nodup)
    (hlen : index * 4 + 4 ≤ (blocks inode.doubleIndirectBlock).length)
    (hzero : readBlockPtr (blocks inode.doubleIndirectBlock) index = 0)
    (hc : c ≠ inode.doubleIndirectBlock) (hc' : c < 2 ^ 32) (hz : ∀ j, readBlockPtr (blocks c) j = 0) :
    blockMap (Function.update blocks inode.doubleIndirectBlock
        (writeBlockPtr (blocks inode.doubleIndirectBlock) index c)) ptrsPerBlock inode =
      blockMap blocks ptrsPerBlock inode := by
  obtain ⟨hdd, hid⟩ := ptrBlocks_nodup_cases hnd
  funext l
  unfold blockMap
  split_ifs with h12 hind hdbl
  · rfl
  · -- the indirect block is not the one written
    refine congrArg Except.ok (indirectMap_congr fun hi => ?_)
    exact Function.update_of_ne (hid hi hd).1 _ _
  · rw [Function.update_self]
    by_cases hidx : (l - 12 - ptrsPerBlock) / ptrsPerBlock = index
    · -- the new indirect block: a hole, as the zero pointer was
      rw [hidx, readBlockPtr_writeBlockPtr_self hlen hc', hzero]
      simp [indirectMap, Function.update_of_ne hc, hz, blockOrHole]
    · rw [readBlockPtr_writeBlockPtr_ne c hlen hidx]
      refine congrArg Except.ok (indirectMap_congr fun hptr => Function.update_of_ne (fun heq => ?_) _ _)
      have hlt : (l - 12 - ptrsPerBlock) / ptrsPerBlock < ptrsPerBlock := Nat.div_lt_of_lt_mul hdbl
      exact (hdd hd).1 (mem_ptrsOf.mpr ⟨_, hlt, heq, hd⟩)
  · rfl

/-- A hole of the indirect block filled with `b`. -/
theorem blockMap_writeIndirect {l b : Nat} (hl : 12 ≤ l) (hlt : l - 12 < ptrsPerBlock)
    (hi : inode.indirectBlock ≠ 0) (hnd : (ptrBlocks blocks ptrsPerBlock inode).Nodup)
    (hlen : ptrsPerBlock * 4 ≤ (blocks inode.indirectBlock).length) (hb : b ≠ 0) (hb' : b < 2 ^ 32) :
    blockMap (Function.update blocks inode.indirectBlock
        (writeBlockPtr (blocks inode.indirectBlock) (l - 12) b)) ptrsPerBlock inode =
      Function.update (blockMap blocks ptrsPerBlock inode) l (.ok (some b)) := by
  obtain ⟨-, hid⟩ := ptrBlocks_nodup_cases hnd
  have hlen' : (l - 12) * 4 + 4 ≤ (blocks inode.indirectBlock).length := by omega
  funext l'
  by_cases hl' : l' = l
  · subst hl'
    simp [blockMap, indirectMap, hi, readBlockPtr_writeBlockPtr_self hlen' hb', hb, hlt,
      show ¬l' < 12 by omega]
  rw [Function.update_of_ne hl']
  unfold blockMap
  split_ifs with h12 hind hdbl hd
  · rfl
  · -- another pointer of the indirect block
    simp only [indirectMap, if_neg hi, Function.update_self,
      readBlockPtr_writeBlockPtr_ne b hlen' (show l' - 12 ≠ l - 12 by omega)]
  · rfl
  · -- the double-indirect block and those under it are not the one written
    rw [Function.update_of_ne (hid hi hd).1.symm]
    refine congrArg Except.ok (indirectMap_congr fun hptr => Function.update_of_ne (fun heq => ?_) _ _)
    have hlt' : (l' - 12 - ptrsPerBlock) / ptrsPerBlock < ptrsPerBlock := Nat.div_lt_of_lt_mul hdbl
    exact (hid hi hd).2 (mem_ptrsOf.mpr ⟨_, hlt', heq, hi⟩)
  · rfl

/-- A hole of an indirect block under the double-indirect one filled with
`b`. -/
theorem blockMap_writeDoubleSlot {l b ptrBlock : Nat} (hl : 12 + ptrsPerBlock ≤ l)
    (hlt : l - 12 - ptrsPerBlock < ptrsPerBlock * ptrsPerBlock) (hd : inode.doubleIndirectBlock ≠ 0)
    (hP : readBlockPtr (blocks inode.doubleIndirectBlock) ((l - 12 - ptrsPerBlock) / ptrsPerBlock) = ptrBlock)
    (hP0 : ptrBlock ≠ 0) (hnd : (ptrBlocks blocks ptrsPerBlock inode).Nodup)
    (hlen : ptrsPerBlock * 4 ≤ (blocks ptrBlock).length) (hb : b ≠ 0) (hb' : b < 2 ^ 32) :
    blockMap (Function.update blocks ptrBlock
        (writeBlockPtr (blocks ptrBlock) ((l - 12 - ptrsPerBlock) % ptrsPerBlock) b)) ptrsPerBlock inode =
      Function.update (blockMap blocks ptrsPerBlock inode) l (.ok (some b)) := by
  obtain ⟨hdd, hid⟩ := ptrBlocks_nodup_cases hnd
  have hpos : 0 < ptrsPerBlock := Nat.pos_of_ne_zero fun h0 => by simp [h0] at hlt
  have hidx1 : (l - 12 - ptrsPerBlock) / ptrsPerBlock < ptrsPerBlock := Nat.div_lt_of_lt_mul hlt
  have hidx2 : (l - 12 - ptrsPerBlock) % ptrsPerBlock < ptrsPerBlock := Nat.mod_lt _ hpos
  have hlen' : (l - 12 - ptrsPerBlock) % ptrsPerBlock * 4 + 4 ≤ (blocks ptrBlock).length := by omega
  -- the block written is an indirect block under the double-indirect one
  have hmem : ptrBlock ∈ ptrsOf (blocks inode.doubleIndirectBlock) ptrsPerBlock :=
    mem_ptrsOf.mpr ⟨_, hidx1, hP, hP0⟩
  have hPD : inode.doubleIndirectBlock ≠ ptrBlock := fun heq => (hdd hd).1 (heq ▸ hmem)
  funext l'
  by_cases hl' : l' = l
  · subst hl'
    simp only [blockMap, show ¬l' < 12 by omega, show ¬l' - 12 < ptrsPerBlock by omega, hlt,
      if_true, if_false, if_neg hd, Function.update_of_ne hPD, hP, indirectMap, if_neg hP0,
      Function.update_self, readBlockPtr_writeBlockPtr_self hlen' hb']
    simp [blockOrHole, hb]
  rw [Function.update_of_ne hl']
  unfold blockMap
  split_ifs with h12 hind hdbl
  · rfl
  · -- the indirect block is not the one written
    refine congrArg Except.ok (indirectMap_congr fun hi => Function.update_of_ne (fun heq => ?_) _ _)
    exact (hid hi hd).2 (heq ▸ hmem)
  · rw [Function.update_of_ne hPD]
    congr 1
    unfold indirectMap
    split_ifs with hptr
    · rfl
    · by_cases hsame : readBlockPtr (blocks inode.doubleIndirectBlock) ((l' - 12 - ptrsPerBlock) / ptrsPerBlock) =
          ptrBlock
      · -- the same indirect block, so the same index in the double-indirect block, and another pointer
        have hq : (l' - 12 - ptrsPerBlock) / ptrsPerBlock = (l - 12 - ptrsPerBlock) / ptrsPerBlock :=
          eq_of_ptrsOf_nodup (hdd hd).2 (Nat.div_lt_of_lt_mul hdbl) hidx1 (hsame.trans hP.symm) (hsame ▸ hP0)
        have hr : (l' - 12 - ptrsPerBlock) % ptrsPerBlock ≠ (l - 12 - ptrsPerBlock) % ptrsPerBlock := by
          intro hr
          have h₁ := Nat.div_add_mod (l' - 12 - ptrsPerBlock) ptrsPerBlock
          have h₂ := Nat.div_add_mod (l - 12 - ptrsPerBlock) ptrsPerBlock
          rw [hq, hr] at h₁
          omega
        rw [hsame, Function.update_self, readBlockPtr_writeBlockPtr_ne b hlen' hr]
      · rw [Function.update_of_ne hsame]
  · rfl

/-- A write to a block other than the double-indirect one keeps the
pointer blocks. -/
theorem ptrBlocks_update_ne {x : Nat} (hx : x ≠ inode.doubleIndirectBlock) (data : List UInt8) :
    ptrBlocks (Function.update blocks x data) ptrsPerBlock inode = ptrBlocks blocks ptrsPerBlock inode := by
  unfold ptrBlocks
  rw [Function.update_of_ne (Ne.symm hx)]

theorem ptrBlocks_setIndirect {b : Nat} (hi : inode.indirectBlock = 0) (hb : b ≠ 0) (sectors : Nat) :
    ptrBlocks blocks ptrsPerBlock { inode with indirectBlock := b, sectorsUsed := sectors } =
      b :: ptrBlocks blocks ptrsPerBlock inode := by
  simp [ptrBlocks, hi, hb]

theorem ptrBlocks_setDouble {b : Nat} (hd : inode.doubleIndirectBlock = 0) (hb : b ≠ 0)
    (hz : ∀ j, readBlockPtr (blocks b) j = 0) (sectors : Nat) :
    (ptrBlocks blocks ptrsPerBlock { inode with doubleIndirectBlock := b, sectorsUsed := sectors }).Perm
      (b :: ptrBlocks blocks ptrsPerBlock inode) := by
  have hnone : ptrsOf (blocks b) ptrsPerBlock = [] := by simp [ptrsOf, hz]
  simp only [ptrBlocks, hd, hb, hnone, if_true, if_false, List.append_nil]
  exact List.perm_append_singleton _ _

/-- A new indirect block under the double-indirect one is one pointer block more. -/
theorem ptrBlocks_writeDouble {index c : Nat} (hd : inode.doubleIndirectBlock ≠ 0)
    (hidx : index < ptrsPerBlock) (hlen : ptrsPerBlock * 4 ≤ (blocks inode.doubleIndirectBlock).length)
    (hzero : readBlockPtr (blocks inode.doubleIndirectBlock) index = 0) (hc : c ≠ 0) (hc' : c < 2 ^ 32) :
    (ptrBlocks (Function.update blocks inode.doubleIndirectBlock
        (writeBlockPtr (blocks inode.doubleIndirectBlock) index c)) ptrsPerBlock inode).Perm
      (c :: ptrBlocks blocks ptrsPerBlock inode) := by
  have hnew := ptrsOf_writeBlockPtr hidx hlen hzero hc hc'
  simp only [ptrBlocks, if_neg hd, Function.update_self]
  -- the new pointer sits after the double-indirect block; move it to the front
  have hmid : List.Perm
      ((if inode.indirectBlock = 0 then [] else [inode.indirectBlock]) ++
        inode.doubleIndirectBlock :: ptrsOf (writeBlockPtr (blocks inode.doubleIndirectBlock) index c) ptrsPerBlock)
      ((if inode.indirectBlock = 0 then [] else [inode.indirectBlock]) ++
        c :: inode.doubleIndirectBlock :: ptrsOf (blocks inode.doubleIndirectBlock) ptrsPerBlock) :=
    ((hnew.cons _).trans (List.Perm.swap _ _ _)).append_left _
  exact hmid.trans List.perm_middle

/-- The logical block an indirect slot maps. -/
theorem blockMap_indirect {l : Nat} (hl : 12 ≤ l) (hlt : l - 12 < ptrsPerBlock) (hi : inode.indirectBlock ≠ 0) :
    blockMap blocks ptrsPerBlock inode l =
      .ok (blockOrHole (readBlockPtr (blocks inode.indirectBlock) (l - 12))) := by
  simp [blockMap, indirectMap, hi, hlt, show ¬l < 12 by omega]

/-- The logical block a slot under the double-indirect block maps. -/
theorem blockMap_double {l : Nat} (hl : 12 + ptrsPerBlock ≤ l)
    (hlt : l - 12 - ptrsPerBlock < ptrsPerBlock * ptrsPerBlock) (hd : inode.doubleIndirectBlock ≠ 0)
    (hP0 : readBlockPtr (blocks inode.doubleIndirectBlock) ((l - 12 - ptrsPerBlock) / ptrsPerBlock) ≠ 0) :
    blockMap blocks ptrsPerBlock inode l =
      .ok (blockOrHole (readBlockPtr
        (blocks (readBlockPtr (blocks inode.doubleIndirectBlock) ((l - 12 - ptrsPerBlock) / ptrsPerBlock)))
        ((l - 12 - ptrsPerBlock) % ptrsPerBlock))) := by
  simp [blockMap, indirectMap, hd, hlt, hP0, show ¬l < 12 by omega, show ¬l - 12 < ptrsPerBlock by omega]

/-- An inode with no block maps no logical block. -/
theorem blockMap_default (l b : Nat) : blockMap blocks ptrsPerBlock Inode.default l ≠ .ok (some b) := by
  unfold blockMap
  split_ifs with h12 hind hdbl hd
  · simp [Inode.default, blockOrHole]
  · simp [Inode.default, indirectMap]
  · simp
  · exact absurd rfl hd
  · simp

@[simp] theorem ptrBlocks_default : ptrBlocks blocks ptrsPerBlock Inode.default = [] := by
  simp [ptrBlocks, Inode.default]

end Steps

/-! ## The steps of `ensure_block` keep the image consistent -/

/-- A write that leaves the state, the layout, the block bitmaps and the
lengths of the blocks as they were. -/
structure KeepsMarks (fs fs' : Ext2Filesystem) : Prop where
  state_eq : fs'.state = fs.state
  layout : SameLayout fs fs'
  length_eq : ∀ x, (fs'.dev.blocks x).length = (fs.dev.blocks x).length
  bitmap_eq : ∀ g < fs.state.blockGroupCount,
    fs'.dev.blocks (fs.bgd g).blockBitmap = fs.dev.blocks (fs.bgd g).blockBitmap

/-- A new block, just allocated for the inode: marked and zeroed, and not
yet a block of the inode. -/
structure NewBlock (fs : Ext2Filesystem) (inode : Inode) (b : Nat) : Prop where
  ne_zero : b ≠ 0
  lt : b < 2 ^ 32
  marked : blockAllocated fs b = true
  zeroed : fs.dev.blocks b = List.replicate fs.state.blockSize 0
  not_meta : ¬ IsMetadata fs b
  not_ptr : b ∉ ptrBlocks fs.dev.blocks (fs.state.blockSize / 4) inode
  not_data : ∀ l, blockMap fs.dev.blocks (fs.state.blockSize / 4) inode l ≠ .ok (some b)

section Invariant

variable {fs fs' : Ext2Filesystem} {inode inode' : Inode} {b : Nat}

/-- A write of a block of its own size that is no metadata block keeps the
marks. -/
theorem keepsMarks_write {x : Nat} {data : List UInt8} (hgeo : Geometry fs) (hx : ¬ IsMetadata fs x)
    (hlen : data.length = (fs.dev.blocks x).length) :
    KeepsMarks fs { fs with dev.blocks := Function.update fs.dev.blocks x data } where
  state_eq := rfl
  layout := sameLayout_update_of_not_isMetadata hgeo hx data
  length_eq y := by
    by_cases hy : y = x
    · subst hy
      simp [hlen]
    · simp [Function.update_of_ne hy]
  bitmap_eq g hg := Function.update_of_ne (ne_of_isMetadata hx (isMetadata_blockBitmap hg)) _ _

theorem KeepsMarks.blockAllocated_eq (hk : KeepsMarks fs fs') (x : Nat) :
    blockAllocated fs' x = blockAllocated fs x :=
  hk.layout.blockAllocated_eq hk.bitmap_eq

theorem KeepsMarks.geometry (hk : KeepsMarks fs fs') (hgeo : Geometry fs) : Geometry fs' :=
  hgeo.of_sameLayout hk.layout fun x => by rw [hk.length_eq, hgeo.block_length]

theorem KeepsMarks.metadata (hk : KeepsMarks fs fs') (hm : MetadataAllocated fs) : MetadataAllocated fs' :=
  hm.of_sameLayout hk.layout fun x hx => by rw [hk.blockAllocated_eq]; exact hx

theorem NewBlock.ptr_zero (hnew : NewBlock fs inode b) (j : Nat) : readBlockPtr (fs.dev.blocks b) j = 0 := by
  rw [hnew.zeroed]
  exact readBlockPtr_replicate_zero _ _

/-- The block an allocation hands out is a new block of the inode. -/
theorem MapInv.newBlock (hinv : MapInv fs inode) (ha : Allocates fs fs' b) : NewBlock fs' inode b := by
  obtain ⟨-, hmap, hptrs⟩ := hinv.allocate ha
  obtain ⟨hb0, hbp, hbd⟩ := hinv.fresh ha.free
  -- a free block is no metadata block, and the metadata stays where it was
  have hmeta : ¬ IsMetadata fs' b := fun h => hinv.metadata.not_isMetadata ha.free (ha.layout.isMetadata_iff.mp h)
  exact ⟨hb0, hinv.lt_of_allocates ha, ha.marked, by rw [ha.zeroed, ha.sizes_eq.1], hmeta,
    by rw [hptrs]; exact hbp, by rw [hmap]; exact hbd⟩

/-- The mapping changed at `l` alone, to a new block. -/
theorem MapInv.of_update (hinv : MapInv fs inode) (hnew : NewBlock fs inode b) (hk : KeepsMarks fs fs')
    {l : Nat}
    (hmap : blockMap fs'.dev.blocks (fs.state.blockSize / 4) inode' =
      Function.update (blockMap fs.dev.blocks (fs.state.blockSize / 4) inode) l (.ok (some b)))
    (hptrs : ptrBlocks fs'.dev.blocks (fs.state.blockSize / 4) inode' =
      ptrBlocks fs.dev.blocks (fs.state.blockSize / 4) inode) :
    MapInv fs' inode' := by
  -- what a logical block maps to after the change
  have hcases : ∀ l' x, blockMap fs'.dev.blocks (fs.state.blockSize / 4) inode' l' = .ok (some x) →
      (l' = l ∧ x = b) ∨ (l' ≠ l ∧ blockMap fs.dev.blocks (fs.state.blockSize / 4) inode l' = .ok (some x)) := by
    intro l' x hx
    rw [hmap] at hx
    by_cases hl' : l' = l
    · subst hl'
      rw [Function.update_self] at hx
      exact .inl ⟨rfl, by injection hx with hx; injection hx with hx; exact hx.symm⟩
    · exact .inr ⟨hl', by rwa [Function.update_of_ne hl'] at hx⟩
  refine ⟨hk.geometry hinv.geometry, hk.metadata hinv.metadata, ?_, ?_, ?_, ?_, ?_, ?_, ?_⟩
  · rw [hk.blockAllocated_eq]
    exact hinv.zero_marked
  all_goals rw [hk.state_eq]
  · intro l' x hx
    rw [hk.blockAllocated_eq]
    rcases hcases l' x hx with ⟨-, rfl⟩ | ⟨-, hx⟩
    · exact hnew.marked
    · exact hinv.data_marked l' x hx
  · rw [hptrs]
    intro x hx
    rw [hk.blockAllocated_eq]
    exact hinv.ptr_marked x hx
  · rw [hptrs]
    intro x hx
    rw [hk.layout.isMetadata_iff]
    exact hinv.ptr_not_meta x hx
  · intro l₁ l₂ x h₁ h₂
    rcases hcases l₁ x h₁ with ⟨hl₁, hx₁⟩ | ⟨-, h₁⟩ <;> rcases hcases l₂ x h₂ with ⟨hl₂, hx₂⟩ | ⟨-, h₂⟩
    · rw [hl₁, hl₂]
    · exact absurd (hx₁ ▸ h₂) (hnew.not_data l₂)
    · exact absurd (hx₂ ▸ h₁) (hnew.not_data l₁)
    · exact hinv.inj l₁ l₂ x h₁ h₂
  · intro l' x hx
    rw [hptrs]
    rcases hcases l' x hx with ⟨-, rfl⟩ | ⟨-, hx⟩
    · exact hnew.not_ptr
    · exact hinv.not_ptr l' x hx
  · rw [hptrs]
    exact hinv.ptr_nodup

/-- A new pointer block, mapping nothing yet. -/
theorem MapInv.of_newPtr (hinv : MapInv fs inode) (hnew : NewBlock fs inode b) (hk : KeepsMarks fs fs')
    (hmap : blockMap fs'.dev.blocks (fs.state.blockSize / 4) inode' =
      blockMap fs.dev.blocks (fs.state.blockSize / 4) inode)
    (hptrs : (ptrBlocks fs'.dev.blocks (fs.state.blockSize / 4) inode').Perm
      (b :: ptrBlocks fs.dev.blocks (fs.state.blockSize / 4) inode)) :
    MapInv fs' inode' := by
  refine ⟨hk.geometry hinv.geometry, hk.metadata hinv.metadata, ?_, ?_, ?_, ?_, ?_, ?_, ?_⟩
  · rw [hk.blockAllocated_eq]
    exact hinv.zero_marked
  all_goals rw [hk.state_eq]
  · rw [hmap]
    intro l x hx
    rw [hk.blockAllocated_eq]
    exact hinv.data_marked l x hx
  · intro x hx
    rw [hk.blockAllocated_eq]
    rcases List.mem_cons.mp (hptrs.subset hx) with rfl | hx
    · exact hnew.marked
    · exact hinv.ptr_marked x hx
  · intro x hx
    rw [hk.layout.isMetadata_iff]
    rcases List.mem_cons.mp (hptrs.subset hx) with rfl | hx
    · exact hnew.not_meta
    · exact hinv.ptr_not_meta x hx
  · rw [hmap]
    exact hinv.inj
  · rw [hmap]
    intro l x hx hmem
    rcases List.mem_cons.mp (hptrs.subset hmem) with rfl | hmem
    · exact hnew.not_data l hx
    · exact hinv.not_ptr l x hx hmem
  · exact hptrs.nodup_iff.mpr (List.nodup_cons.mpr ⟨hnew.not_ptr, hinv.ptr_nodup⟩)

/-- The invariant reads the inode only through its mapping and its pointer blocks. -/
theorem MapInv.congr (hinv : MapInv fs inode)
    (hmap : blockMap fs.dev.blocks (fs.state.blockSize / 4) inode' =
      blockMap fs.dev.blocks (fs.state.blockSize / 4) inode)
    (hptrs : ptrBlocks fs.dev.blocks (fs.state.blockSize / 4) inode' =
      ptrBlocks fs.dev.blocks (fs.state.blockSize / 4) inode) :
    MapInv fs inode' :=
  ⟨hinv.geometry, hinv.metadata, hinv.zero_marked,
    hmap ▸ hinv.data_marked, hptrs ▸ hinv.ptr_marked, hptrs ▸ hinv.ptr_not_meta, hmap ▸ hinv.inj,
    hmap ▸ hptrs ▸ hinv.not_ptr, hptrs ▸ hinv.ptr_nodup⟩

theorem MapInv.addSectors (hinv : MapInv fs inode) (sectors : Nat) (allocated : Bool) :
    MapInv fs (inode.addSectors sectors allocated) :=
  hinv.congr (blockMap_addSectors _ _) (ptrBlocks_addSectors _ _)

theorem KeepsMarks.refl (fs : Ext2Filesystem) : KeepsMarks fs fs :=
  ⟨rfl, ⟨rfl, fun _ _ => rfl, fun _ _ => rfl, fun _ _ => rfl⟩, fun _ => rfl, fun _ _ => rfl⟩

theorem MapInv.indirect_ne_double (hinv : MapInv fs inode) (hi : inode.indirectBlock ≠ 0) :
    inode.indirectBlock ≠ inode.doubleIndirectBlock := by
  by_cases hd : inode.doubleIndirectBlock = 0
  · rw [hd]
    exact hi
  · exact ((ptrBlocks_nodup_cases hinv.ptr_nodup).2 hi hd).1

end Invariant

/-! ## The runs of `ensure_ptr` and `ensure_block` -/

section Runs

variable {fs fs' : Ext2Filesystem}

/-- The two runs of `ensure_ptr`: the pointer was there, or a block was
allocated and its number written into the pointer block. -/
theorem ensurePtr_run {ptrBlock index block : Nat} {allocated : Bool}
    (h : (ensurePtr ptrBlock index).run fs = .ok (block, allocated) fs') :
    (readBlockPtr (fs.dev.blocks ptrBlock) index ≠ 0 ∧ block = readBlockPtr (fs.dev.blocks ptrBlock) index ∧
        allocated = false ∧ fs' = fs) ∨
      (readBlockPtr (fs.dev.blocks ptrBlock) index = 0 ∧ allocated = true ∧
        ∃ fs₁, allocateBlock.run fs = .ok block fs₁ ∧
          fs' = { fs₁ with
            dev.blocks := Function.update fs₁.dev.blocks ptrBlock (writeBlockPtr (fs.dev.blocks ptrBlock) index block) }) := by
  simp only [ensurePtr, EStateM.run_bind, run_readBlock] at h
  split_ifs at h with hz
  · obtain ⟨c, fs₁, ha, h⟩ := run_bind_eq_ok.mp h
    obtain ⟨u, fs₂, hw, h⟩ := run_bind_eq_ok.mp h
    cases h
    rw [run_writeBlock] at hw
    split_ifs at hw
    cases hw
    exact .inr ⟨hz, rfl, fs₁, ha, rfl⟩
  · cases h
    exact .inl ⟨hz, rfl, rfl, rfl⟩

variable {inode : Inode}

/-- `ensure_ptr` on a slot that holds the pointer of logical block `l`:
the slot ends up mapping `l` to the block returned. -/
theorem MapInv.ensurePtr_slot (hinv : MapInv fs inode) {ptrBlock index l b : Nat} {allocated : Bool}
    (hP : ptrBlock ∈ ptrBlocks fs.dev.blocks (fs.state.blockSize / 4) inode)
    (hPD : ptrBlock ≠ inode.doubleIndirectBlock) (hidx : index < fs.state.blockSize / 4)
    (hmapl : blockMap fs.dev.blocks (fs.state.blockSize / 4) inode l =
      .ok (blockOrHole (readBlockPtr (fs.dev.blocks ptrBlock) index)))
    (hslot : ∀ v, v ≠ 0 → v < 2 ^ 32 →
      blockMap (Function.update fs.dev.blocks ptrBlock (writeBlockPtr (fs.dev.blocks ptrBlock) index v))
          (fs.state.blockSize / 4) inode =
        Function.update (blockMap fs.dev.blocks (fs.state.blockSize / 4) inode) l (.ok (some v)))
    (h : (ensurePtr ptrBlock index).run fs = .ok (b, allocated) fs') :
    fs'.state.blockSize = fs.state.blockSize ∧ MapInv fs' inode ∧
      blockMap fs'.dev.blocks (fs'.state.blockSize / 4) inode =
        Function.update (blockMap fs.dev.blocks (fs.state.blockSize / 4) inode) l (.ok (some b)) ∧
      ∀ b', blockMap fs.dev.blocks (fs.state.blockSize / 4) inode l = .ok (some b') → b' = b := by
  rcases ensurePtr_run h with ⟨hnz, rfl, -, hfs⟩ | ⟨hz, -, fs₁, hrun, rfl⟩
  · -- the pointer was there: the run changes nothing
    rw [hfs]
    have hl : blockMap fs.dev.blocks (fs.state.blockSize / 4) inode l =
        .ok (some (readBlockPtr (fs.dev.blocks ptrBlock) index)) := by
      rw [hmapl]
      simp [blockOrHole, hnz]
    refine ⟨rfl, hinv, by rw [← hl, Function.update_eq_self], fun b' hb' => ?_⟩
    rw [hl] at hb'
    cases hb'
    rfl
  · have ha := allocateBlock_allocates hinv.geometry hinv.metadata hrun
    obtain ⟨hinv₁, hmap₁, hptrs₁⟩ := hinv.allocate ha
    have hbs := ha.sizes_eq.1
    have hnew := hinv.newBlock ha
    have hframe := hinv.frame ha
    have hlen : index * 4 + 4 ≤ (fs.dev.blocks ptrBlock).length := by
      rw [hinv.block_length]
      omega
    have hk := keepsMarks_write hinv₁.geometry (hinv₁.ptr_not_meta _ (hptrs₁ ▸ hP))
      (show (writeBlockPtr (fs.dev.blocks ptrBlock) index b).length = (fs₁.dev.blocks ptrBlock).length by
        rw [length_writeBlockPtr b hlen, hframe _ hP])
    -- the slot written over the allocation maps as it would over the image before it
    have hmap : blockMap (Function.update fs₁.dev.blocks ptrBlock (writeBlockPtr (fs.dev.blocks ptrBlock) index b))
        (fs₁.state.blockSize / 4) inode =
        Function.update (blockMap fs₁.dev.blocks (fs₁.state.blockSize / 4) inode) l (.ok (some b)) := by
      rw [hmap₁, hbs, ← hslot b hnew.ne_zero hnew.lt]
      apply blockMap_congr
      intro x hx
      rw [ptrBlocks_update_ne hPD] at hx
      by_cases hxP : x = ptrBlock
      · rw [hxP, Function.update_self, Function.update_self]
      · rw [Function.update_of_ne hxP, Function.update_of_ne hxP, hframe x hx]
    refine ⟨hbs, hinv₁.of_update hnew hk hmap (ptrBlocks_update_ne hPD _), by rw [← hmap₁]; exact hmap,
      fun b' hb' => ?_⟩
    -- the slot was a hole
    rw [hmapl, hz] at hb'
    simp [blockOrHole] at hb'

/-- `ensure_ptr` on the slot of the double-indirect block that points to
the indirect block of a logical block: the mapping is kept and the slot
ends up holding the block returned. -/
theorem MapInv.ensurePtr_double (hinv : MapInv fs inode) {index ind : Nat} {allocated : Bool}
    (hd : inode.doubleIndirectBlock ≠ 0) (hidx : index < fs.state.blockSize / 4)
    (h : (ensurePtr inode.doubleIndirectBlock index).run fs = .ok (ind, allocated) fs') :
    fs'.state.blockSize = fs.state.blockSize ∧ MapInv fs' inode ∧
      blockMap fs'.dev.blocks (fs'.state.blockSize / 4) inode =
        blockMap fs.dev.blocks (fs.state.blockSize / 4) inode ∧
      readBlockPtr (fs'.dev.blocks inode.doubleIndirectBlock) index = ind ∧ ind ≠ 0 := by
  have hD : inode.doubleIndirectBlock ∈ ptrBlocks fs.dev.blocks (fs.state.blockSize / 4) inode := by
    simp [ptrBlocks, hd]
  rcases ensurePtr_run h with ⟨hnz, rfl, -, rfl⟩ | ⟨hz, -, fs₁, hrun, rfl⟩
  · exact ⟨rfl, hinv, rfl, rfl, hnz⟩
  · have ha := allocateBlock_allocates hinv.geometry hinv.metadata hrun
    obtain ⟨hinv₁, hmap₁, hptrs₁⟩ := hinv.allocate ha
    have hbs := ha.sizes_eq.1
    have hnew := hinv.newBlock ha
    have hD₁ : fs₁.dev.blocks inode.doubleIndirectBlock = fs.dev.blocks inode.doubleIndirectBlock :=
      hinv.frame ha _ hD
    have hidx₁ : index < fs₁.state.blockSize / 4 := hbs ▸ hidx
    have hlen : fs₁.state.blockSize / 4 * 4 ≤ (fs₁.dev.blocks inode.doubleIndirectBlock).length := by
      rw [hinv₁.block_length]
      exact Nat.div_mul_le_self _ _
    have hlen' : index * 4 + 4 ≤ (fs₁.dev.blocks inode.doubleIndirectBlock).length := by omega
    have hzero : readBlockPtr (fs₁.dev.blocks inode.doubleIndirectBlock) index = 0 := by
      rw [hD₁]
      exact hz
    have hcD : ind ≠ inode.doubleIndirectBlock := fun heq => hnew.not_ptr (heq ▸ hptrs₁ ▸ hD)
    rw [← hD₁]
    have hmap := blockMap_writeDouble hd hinv₁.ptr_nodup hlen' hzero hcD hnew.lt hnew.ptr_zero
    have hk := keepsMarks_write hinv₁.geometry (hinv₁.ptr_not_meta _ (hptrs₁ ▸ hD))
      (length_writeBlockPtr ind hlen')
    refine ⟨hbs, hinv₁.of_newPtr hnew hk hmap
      (ptrBlocks_writeDouble hd hidx₁ hlen hzero hnew.ne_zero hnew.lt), ?_, ?_, hnew.ne_zero⟩
    · rw [← hmap₁]
      exact hmap
    · simp [readBlockPtr_writeBlockPtr_self hlen' hnew.lt]

/-- A new indirect block for an inode that has none. -/
theorem MapInv.setIndirect (hinv : MapInv fs inode) (hi : inode.indirectBlock = 0) {c : Nat}
    (hrun : allocateBlock.run fs = .ok c fs') (sectors : Nat) :
    fs'.state.blockSize = fs.state.blockSize ∧
      MapInv fs' { inode with indirectBlock := c, sectorsUsed := sectors } ∧
      blockMap fs'.dev.blocks (fs'.state.blockSize / 4) { inode with indirectBlock := c, sectorsUsed := sectors } =
        blockMap fs.dev.blocks (fs.state.blockSize / 4) inode := by
  have ha := allocateBlock_allocates hinv.geometry hinv.metadata hrun
  obtain ⟨hinv₁, hmap₁, -⟩ := hinv.allocate ha
  have hnew := hinv.newBlock ha
  refine ⟨ha.sizes_eq.1, hinv₁.of_newPtr hnew (KeepsMarks.refl fs') ?_ ?_, ?_⟩
  · exact blockMap_setIndirect hi hnew.ptr_zero sectors
  · rw [ptrBlocks_setIndirect hi hnew.ne_zero]
  · rw [blockMap_setIndirect hi hnew.ptr_zero, hmap₁]

/-- A new double-indirect block for an inode that has none. -/
theorem MapInv.setDouble (hinv : MapInv fs inode) (hd : inode.doubleIndirectBlock = 0) {c : Nat}
    (hrun : allocateBlock.run fs = .ok c fs') (sectors : Nat) :
    fs'.state.blockSize = fs.state.blockSize ∧
      MapInv fs' { inode with doubleIndirectBlock := c, sectorsUsed := sectors } ∧
      blockMap fs'.dev.blocks (fs'.state.blockSize / 4) { inode with doubleIndirectBlock := c, sectorsUsed := sectors } =
        blockMap fs.dev.blocks (fs.state.blockSize / 4) inode := by
  have ha := allocateBlock_allocates hinv.geometry hinv.metadata hrun
  obtain ⟨hinv₁, hmap₁, -⟩ := hinv.allocate ha
  have hnew := hinv.newBlock ha
  refine ⟨ha.sizes_eq.1, hinv₁.of_newPtr hnew (KeepsMarks.refl fs') ?_
    (ptrBlocks_setDouble hd hnew.ne_zero hnew.ptr_zero sectors), ?_⟩
  · exact blockMap_setDouble hd hnew.ptr_zero sectors
  · rw [blockMap_setDouble hd hnew.ptr_zero, hmap₁]

/-- A hole among the direct blocks filled with a new block. -/
theorem MapInv.setDirect (hinv : MapInv fs inode) {l c : Nat} (hl : l < 12)
    (hrun : allocateBlock.run fs = .ok c fs') (sectors : Nat) :
    MapInv fs' { inode with directBlocks := inode.directBlocks.set l c hl, sectorsUsed := sectors } ∧
      blockMap fs'.dev.blocks (fs'.state.blockSize / 4)
          { inode with directBlocks := inode.directBlocks.set l c hl, sectorsUsed := sectors } =
        Function.update (blockMap fs.dev.blocks (fs.state.blockSize / 4) inode) l (.ok (some c)) := by
  have ha := allocateBlock_allocates hinv.geometry hinv.metadata hrun
  obtain ⟨hinv₁, hmap₁, -⟩ := hinv.allocate ha
  have hnew := hinv.newBlock ha
  refine ⟨hinv₁.of_update hnew (KeepsMarks.refl fs') (blockMap_setDirect hl hnew.ne_zero sectors) rfl, ?_⟩
  rw [blockMap_setDirect hl hnew.ne_zero, hmap₁]

theorem MapInv.allocate_ne_zero (hinv : MapInv fs inode) {c : Nat} (hrun : allocateBlock.run fs = .ok c fs') :
    c ≠ 0 :=
  (hinv.fresh (allocateBlock_allocates hinv.geometry hinv.metadata hrun).free).1

/-- The indirect branch of `ensure_block`, from the inode with its
indirect block in place. -/
theorem MapInv.ensureIndirect (hinv : MapInv fs inode) {l b : Nat} {allocated : Bool} (hl : 12 ≤ l)
    (hlt : l - 12 < fs.state.blockSize / 4) (hi : inode.indirectBlock ≠ 0)
    (h : (ensurePtr inode.indirectBlock (l - 12)).run fs = .ok (b, allocated) fs') (sectors : Nat) :
    MapInv fs' (inode.addSectors sectors allocated) ∧
      blockMap fs'.dev.blocks (fs'.state.blockSize / 4) (inode.addSectors sectors allocated) =
        Function.update (blockMap fs.dev.blocks (fs.state.blockSize / 4) inode) l (.ok (some b)) ∧
      ∀ b', blockMap fs.dev.blocks (fs.state.blockSize / 4) inode l = .ok (some b') → b' = b := by
  have hP : inode.indirectBlock ∈ ptrBlocks fs.dev.blocks (fs.state.blockSize / 4) inode := by
    simp [ptrBlocks, hi]
  have hlen : fs.state.blockSize / 4 * 4 ≤ (fs.dev.blocks inode.indirectBlock).length := by
    rw [hinv.block_length]
    exact Nat.div_mul_le_self _ _
  obtain ⟨-, hinv', hmap, hkeep⟩ := hinv.ensurePtr_slot hP (hinv.indirect_ne_double hi) hlt
    (blockMap_indirect hl hlt hi)
    (fun v hv hv' => blockMap_writeIndirect hl hlt hi hinv.ptr_nodup hlen hv hv') h
  exact ⟨hinv'.addSectors _ _, by rw [blockMap_addSectors, hmap], hkeep⟩

/-- The double-indirect branch of `ensure_block`, from the inode with its
double-indirect block in place: the pointer to the indirect block, then
the slot in it. -/
theorem MapInv.ensureDouble (hinv : MapInv fs inode) {fs₁ : Ext2Filesystem} {l c b : Nat} {a₁ a₂ : Bool}
    (hl : 12 + fs.state.blockSize / 4 ≤ l)
    (hlt : l - 12 - fs.state.blockSize / 4 < fs.state.blockSize / 4 * (fs.state.blockSize / 4))
    (hd : inode.doubleIndirectBlock ≠ 0)
    (h₁ : (ensurePtr inode.doubleIndirectBlock
      ((l - 12 - fs.state.blockSize / 4) / (fs.state.blockSize / 4))).run fs = .ok (c, a₁) fs₁)
    (h₂ : (ensurePtr c ((l - 12 - fs.state.blockSize / 4) % (fs.state.blockSize / 4))).run fs₁ =
      .ok (b, a₂) fs')
    (sectors : Nat) :
    MapInv fs' ((inode.addSectors sectors a₁).addSectors sectors a₂) ∧
      blockMap fs'.dev.blocks (fs'.state.blockSize / 4) ((inode.addSectors sectors a₁).addSectors sectors a₂) =
        Function.update (blockMap fs.dev.blocks (fs.state.blockSize / 4) inode) l (.ok (some b)) ∧
      ∀ b', blockMap fs.dev.blocks (fs.state.blockSize / 4) inode l = .ok (some b') → b' = b := by
  have hpos : 0 < fs.state.blockSize / 4 := Nat.pos_of_ne_zero fun h0 => by simp [h0] at hlt
  have hidx : (l - 12 - fs.state.blockSize / 4) / (fs.state.blockSize / 4) < fs.state.blockSize / 4 :=
    Nat.div_lt_of_lt_mul hlt
  obtain ⟨hbs, hinv₁, hmap₁, hc, hc0⟩ := hinv.ensurePtr_double hd hidx h₁
  have hc0' : readBlockPtr (fs₁.dev.blocks inode.doubleIndirectBlock)
      ((l - 12 - fs.state.blockSize / 4) / (fs.state.blockSize / 4)) ≠ 0 := by
    rw [hc]
    exact hc0
  have hnd : (ptrBlocks fs₁.dev.blocks (fs.state.blockSize / 4) inode).Nodup := hbs ▸ hinv₁.ptr_nodup
  -- the indirect block under the double-indirect one is a pointer block other than it
  have hcmem : c ∈ ptrsOf (fs₁.dev.blocks inode.doubleIndirectBlock) (fs.state.blockSize / 4) :=
    mem_ptrsOf.mpr ⟨_, hidx, hc, hc0⟩
  have hP : c ∈ ptrBlocks fs₁.dev.blocks (fs₁.state.blockSize / 4) inode := by
    rw [hbs]
    simp only [ptrBlocks, if_neg hd, List.mem_append, List.mem_cons]
    exact .inr (.inr hcmem)
  have hPD : c ≠ inode.doubleIndirectBlock :=
    fun heq => ((ptrBlocks_nodup_cases hnd).1 hd).1 (heq ▸ hcmem)
  have hlen : fs.state.blockSize / 4 * 4 ≤ (fs₁.dev.blocks c).length := by
    rw [hinv₁.block_length, hbs]
    exact Nat.div_mul_le_self _ _
  have hidx₂ : (l - 12 - fs.state.blockSize / 4) % (fs.state.blockSize / 4) < fs₁.state.blockSize / 4 := by
    rw [hbs]
    exact Nat.mod_lt _ hpos
  obtain ⟨-, hinv₂, hmap₂, hkeep⟩ := hinv₁.ensurePtr_slot hP hPD hidx₂
    (by rw [hbs, ← hc]; exact blockMap_double hl hlt hd hc0')
    (fun v hv hv' => by rw [hbs]; exact blockMap_writeDoubleSlot hl hlt hd hc hc0 hnd hlen hv hv') h₂
  refine ⟨(hinv₂.addSectors _ _).addSectors _ _, ?_, fun b' hb' => hkeep b' (by rw [hmap₁]; exact hb')⟩
  rw [blockMap_addSectors, blockMap_addSectors, hmap₂, hmap₁]

/-- A successful `ensure_block` maps `l` to the block it returns, keeps every
other logical block and keeps the image consistent. -/
theorem MapInv.ensureBlock_spec (hinv : MapInv fs inode) {l b : Nat} {inode' : Inode}
    (h : (ensureBlock inode l).run fs = .ok (b, inode') fs') :
    MapInv fs' inode' ∧
      blockMap fs'.dev.blocks (fs'.state.blockSize / 4) inode' =
        Function.update (blockMap fs.dev.blocks (fs.state.blockSize / 4) inode) l (.ok (some b)) ∧
      ∀ b', blockMap fs.dev.blocks (fs.state.blockSize / 4) inode l = .ok (some b') → b' = b := by
  simp only [ensureBlock, EStateM.run_bind, run_getState] at h
  split_ifs at h with h12 hz hind hi hdbl hd
  · -- a hole among the direct blocks
    obtain ⟨c, fs₁, hrun, h⟩ := run_bind_eq_ok.mp h
    cases h
    obtain ⟨hinv₁, hmap₁⟩ := hinv.setDirect h12 hrun (inode.sectorsUsed + fs.state.blockSize / 512)
    exact ⟨hinv₁, hmap₁, fun b' hb' => by simp [blockMap, h12, blockOrHole, hz] at hb'⟩
  · -- a direct block already there
    cases h
    have hl : blockMap fs.dev.blocks (fs.state.blockSize / 4) inode l = .ok (some inode.directBlocks[l]) := by
      simp [blockMap, h12, blockOrHole, hz]
    refine ⟨hinv, by rw [← hl, Function.update_eq_self], fun b' hb' => ?_⟩
    rw [hl] at hb'
    cases hb'
    rfl
  · -- a new indirect block first
    obtain ⟨c, fs₁, hrun, h⟩ := run_bind_eq_ok.mp h
    obtain ⟨inode₁, fs₂, hpure, h⟩ := run_bind_eq_ok.mp h
    cases hpure
    obtain ⟨⟨b', a⟩, fs₃, hptr, h⟩ := run_bind_eq_ok.mp h
    cases h
    obtain ⟨hbs, hinv₁, hmap₁⟩ := hinv.setIndirect hi hrun (inode.sectorsUsed + fs.state.blockSize / 512)
    obtain ⟨hinv₂, hmap₂, hkeep⟩ :=
      hinv₁.ensureIndirect (by omega) (hbs ▸ hind) (hinv.allocate_ne_zero hrun) hptr _
    exact ⟨hinv₂, by rw [hmap₂, hmap₁], fun b' hb' => hkeep b' (by rw [hmap₁]; exact hb')⟩
  · obtain ⟨inode₁, fs₁, hpure, h⟩ := run_bind_eq_ok.mp h
    cases hpure
    obtain ⟨⟨b', a⟩, fs₂, hptr, h⟩ := run_bind_eq_ok.mp h
    cases h
    exact hinv.ensureIndirect (by omega) hind hi hptr _
  · -- a new double-indirect block first
    obtain ⟨c, fs₁, hrun, h⟩ := run_bind_eq_ok.mp h
    obtain ⟨inode₁, fs₂, hpure, h⟩ := run_bind_eq_ok.mp h
    cases hpure
    obtain ⟨⟨c', a₁⟩, fs₃, hptr₁, h⟩ := run_bind_eq_ok.mp h
    obtain ⟨⟨b', a₂⟩, fs₄, hptr₂, h⟩ := run_bind_eq_ok.mp h
    cases h
    obtain ⟨hbs, hinv₁, hmap₁⟩ := hinv.setDouble hd hrun (inode.sectorsUsed + fs.state.blockSize / 512)
    rw [← hbs] at hptr₁ hptr₂ hind hdbl
    obtain ⟨hinv₂, hmap₂, hkeep⟩ :=
      hinv₁.ensureDouble (by omega) hdbl (hinv.allocate_ne_zero hrun) hptr₁ hptr₂ _
    exact ⟨hinv₂, by rw [hmap₂, hmap₁], fun b' hb' => hkeep b' (by rw [hmap₁]; exact hb')⟩
  · obtain ⟨inode₁, fs₁, hpure, h⟩ := run_bind_eq_ok.mp h
    cases hpure
    obtain ⟨⟨c', a₁⟩, fs₂, hptr₁, h⟩ := run_bind_eq_ok.mp h
    obtain ⟨⟨b', a₂⟩, fs₃, hptr₂, h⟩ := run_bind_eq_ok.mp h
    cases h
    exact hinv.ensureDouble (by omega) hdbl hd hptr₁ hptr₂ _
  · rw [run_throw'] at h
    cases h

end Runs

/-! ## Block mapping agreement -/

/-- A freshly formatted image is consistent around an inode with no block. -/
theorem mapInv_freshImage : MapInv (freshImage 64) Inode.default where
  geometry := geometry_freshImage
  metadata := metadataAllocated_freshImage
  zero_marked := by decide +kernel
  data_marked l b h := absurd h (blockMap_default l b)
  ptr_marked := by simp
  ptr_not_meta := by simp
  inj l₁ _ b h := absurd h (blockMap_default l₁ b)
  not_ptr := by simp
  ptr_nodup := by simp

/-- An image whose block 10, the first free one, holds pointer 20: the
indirect block of an inode the bitmap does not account for. -/
def staleImage : Ext2Filesystem :=
  { freshImage 64 with
    dev.blocks := Function.update (freshImage 64).dev.blocks 10 (writeBlockPtr (List.replicate 1024 0) 0 20) }

/-- An inode whose indirect block is block 10 of `staleImage`. -/
def staleInode : Inode := { Inode.default with indirectBlock := 10 }

end Akuma.Ext2
