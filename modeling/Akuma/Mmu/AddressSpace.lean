import Akuma.Mmu.Table

/-!
# User address spaces

`UserAddressSpace` of `mmu/mod.rs`: the L0 table of one process, the table
and data frames it tracks, the kernel identity mappings every such table
carries, and the methods that map, unmap and re-protect single pages.

The methods that unmap a page or change its permissions share one walk,
`l3Slot`, which checks only the valid bit of the L0, L1 and L2 descriptors.
A block descriptor at L1 or L2 is valid, so the walk goes on through it as
if it pointed to a table, and the L3 slot it returns then lies inside the
physical memory that the block maps.
-/

namespace Akuma.Mmu

/-! ## Global configuration -/

/-- What `mmu::init` and `init_shared_device_tables` record: the physical
RAM range (`RAM_BASE`, `RAM_SIZE`, `0` before `init`) and the shared device
L1 table (`SHARED_DEV_L1_PHYS`, `0` until it is allocated). -/
structure MmuConfig where
  ramBase : Nat
  ramSize : Nat
  sharedDevL1Phys : Nat

/-- `ProcessMemory::KERNEL_VA_START`, the bottom of the kernel identity
window in every user address space. -/
def kernelVaStart : Nat := 0x4000_0000

/-- `FALLBACK_RAM_BASE`. -/
def fallbackRamBase : Nat := 0x4000_0000
/-- `FALLBACK_RAM_END`. -/
def fallbackRamEnd : Nat := 0xC000_0000

namespace MmuConfig

variable (c : MmuConfig)

/-- `ram_base()`. -/
def ramBaseOrFallback : Nat := if c.ramBase = 0 then fallbackRamBase else c.ramBase

/-- `ram_end()`. -/
def ramEnd : Nat := if c.ramSize = 0 then fallbackRamEnd else c.ramBaseOrFallback + c.ramSize

/-- `kernel_va_end()`: the end of RAM rounded up to a 1 GiB boundary; the
mask `!(GB - 1)` of a 64-bit `usize` is `2 ^ 64 - GB`. -/
def kernelVaEnd : Nat :=
  if c.ramSize = 0 then fallbackRamEnd
  else (c.ramEnd + (1 <<< 30) - 1) &&& (2 ^ 64 - (1 <<< 30))

end MmuConfig

/-- The descriptor bits of the 2 MiB kernel RAM blocks: normal memory,
never executable at EL0, access permission `0b00` (read-write at EL1, no
access at EL0). -/
def kernelRamFlags : Nat :=
  Flags.valid ||| Flags.block ||| Flags.af ||| attrIndex mairNormalWb ||| Flags.uxn |||
    Flags.shInner ||| (0b00 <<< 6)

/-- The L3 slot of `va`, found by a walk that checks only the valid bit of
the L0, L1 and L2 descriptors (see the module header). -/
def l3Slot (m : Machine) (l0 va : Nat) : Option Nat :=
  let l0Entry := m.entry l0 (l0Index va)
  if l0Entry &&& Flags.valid = 0 then none else
  let l1Entry := m.entry (tableAddr l0Entry) (l1Index va)
  if l1Entry &&& Flags.valid = 0 then none else
  let l2Entry := m.entry (tableAddr l1Entry) (l2Index va)
  if l2Entry &&& Flags.valid = 0 then none else
  some (tableAddr l2Entry + 8 * l3Index va)

section Slots

variable (m : Machine)

theorem l3Slot_congr {l0 va va' : Nat} (h : SameIndices va va') :
    l3Slot m l0 va = l3Slot m l0 va' := by
  obtain ⟨h0, h1, h2, h3⟩ := h
  simp only [l3Slot, h0, h1, h2, h3]

/-- The slot walk sees only bits 12 to 47 of an address. -/
theorem l3Slot_mod_pow48 (l0 va : Nat) : l3Slot m l0 (va % 2 ^ 48) = l3Slot m l0 va :=
  l3Slot_congr m (sameIndices_mod_pow48 va)

/-- Where the architectural walk ends at a 2 MiB block, the slot walk goes
on into the memory the block maps. -/
theorem l3Slot_of_block2M {l0 va e : Nat} (h : walk m l0 va = some (.block2M e)) :
    l3Slot m l0 va = some (tableAddr e + 8 * l3Index va) := by
  unfold walk at h
  unfold l3Slot
  dsimp only at h ⊢
  split_ifs at h <;> simp_all

end Slots

/-- `(rt.alloc_page_zeroed)().ok_or(msg)`. -/
def Machine.allocPageZeroedOr (m : Machine) (msg : String) : Except String (Nat × Machine) :=
  match m.allocPageZeroed with
  | some r => .ok r
  | none => .error msg

/-- `UserAddressSpace`. `userFrames` lists each tracked data frame once per
reference, which is the per-address count of the source's map. -/
structure UserAddressSpace where
  l0Frame : Nat
  pageTableFrames : List Nat
  userFrames : List Nat
  asid : Nat
  shared : Bool

namespace UserAddressSpace

variable (s : UserAddressSpace) (m : Machine)

/-- `track_user_frame`. -/
def trackUserFrame (frame : Nat) : UserAddressSpace :=
  { s with userFrames := s.userFrames ++ [frame] }

/-- `track_page_table_frame`. -/
def trackPageTableFrame (frame : Nat) : UserAddressSpace :=
  { s with pageTableFrames := s.pageTableFrames ++ [frame] }

/-- `remove_user_frame`: drop one reference to `frame`; `true` when that was
the last one. -/
def removeUserFrame (frame : Nat) : Bool × UserAddressSpace :=
  if frame ∈ s.userFrames then
    let frames := s.userFrames.erase frame
    (frame ∉ frames, { s with userFrames := frames })
  else (false, s)

/-- `ttbr0()`. -/
def ttbr0 : Nat := (s.asid <<< 48) ||| s.l0Frame

/-! ### Building a table -/

/-- `get_or_create_table`: like `get_or_create_table_atomic`, but a frame it
allocates is tracked at once and running out of memory is an error. -/
def getOrCreateTable (t idx : Nat) : Except String (Nat × UserAddressSpace × Machine) :=
  let entry := m.entry t idx
  if entry &&& Flags.valid ≠ 0 then
    if entry &&& Flags.table = 0 then do
      let (frame, m) ← m.allocPageZeroedOr "Out of memory for page table"
      let s := s.trackPageTableFrame frame
      let m := shatterBlockToPages m frame entry
      pure (frame, s, m.setEntry t idx (frame ||| Flags.valid ||| Flags.table))
    else pure (tableAddr entry, s, m)
  else do
    let (frame, m) ← m.allocPageZeroedOr "Out of memory for page table"
    let s := s.trackPageTableFrame frame
    pure (frame, s, m.setEntry t idx (frame ||| Flags.valid ||| Flags.table))

/-- `map_page`: install the page descriptor of `pa` for `va`, over whatever
the L3 slot held. -/
def mapPage (va pa userFlags : Nat) : Except String (UserAddressSpace × Machine) :=
  if va &&& (pageSize - 1) ≠ 0 ∨ pa &&& (pageSize - 1) ≠ 0 then
    .error "Addresses must be page-aligned"
  else do
    let (l1, s, m) ← s.getOrCreateTable m s.l0Frame (l0Index va)
    let (l2, s, m) ← s.getOrCreateTable m l1 (l1Index va)
    let (l3, s, m) ← s.getOrCreateTable m l2 (l2Index va)
    pure (s, m.setEntry l3 (l3Index va) (userPageEntry pa userFlags))

/-- `alloc_and_map`: a fresh zeroed frame, tracked as user data and mapped
at `va`. -/
def allocAndMap (va userFlags : Nat) : Except String (Nat × UserAddressSpace × Machine) := do
  let (frame, m) ← m.allocPageZeroedOr "Out of memory for user page"
  let s := s.trackUserFrame frame
  let (s, m) ← s.mapPage m va frame userFlags
  pure (frame, s, m)

/-! ### Unmapping and re-protecting pages -/

/-- `unmap_page_no_flush`: clear the L3 slot of `va`. It always returns
`Ok`. -/
def unmapPageNoFlush (va : Nat) : Machine :=
  match l3Slot m s.l0Frame va with
  | none => m
  | some slot => m.write slot 0

/-- Unmapping an address that a 2 MiB block maps clears a word of the
memory the block maps. -/
theorem unmapPageNoFlush_of_block2M {va e : Nat} (h : walk m s.l0Frame va = some (.block2M e)) :
    s.unmapPageNoFlush m va = m.write (tableAddr e + 8 * l3Index va) 0 := by
  rw [unmapPageNoFlush, l3Slot_of_block2M m h]

/-- `unmap_page`: `unmap_page_no_flush` and a TLB flush. -/
def unmapPage (va : Nat) : Machine := s.unmapPageNoFlush m va

/-- `unmap_and_free_page_no_flush`: clear a valid L3 descriptor and drop
the address space's reference to its frame; the frame is returned when
that was the last reference. -/
def unmapAndFreePageNoFlush (va : Nat) : Option Nat × UserAddressSpace × Machine :=
  match l3Slot m s.l0Frame va with
  | none => (none, s, m)
  | some slot =>
    let l3Entry := m.mem slot
    if l3Entry &&& Flags.valid = 0 then (none, s, m) else
    let pa := tableAddr l3Entry
    let (last, s) := s.removeUserFrame pa
    (if last then some pa else none, s, m.write slot 0)

/-- `try_evict_ro_page`: like `unmap_and_free_page_no_flush`, but only a
page whose permissions are `AP_RO_ALL`, the one state that is sure to be
clean, is unmapped. -/
def tryEvictRoPage (va : Nat) : Option Nat × UserAddressSpace × Machine :=
  match l3Slot m s.l0Frame va with
  | none => (none, s, m)
  | some slot =>
    let l3Entry := m.mem slot
    if l3Entry &&& Flags.valid = 0 then (none, s, m) else
    if l3Entry &&& Flags.apRoAll ≠ Flags.apRoAll then (none, s, m) else
    let pa := tableAddr l3Entry
    let (last, s) := s.removeUserFrame pa
    (if last then some pa else none, s, m.write slot 0)

/-- `PERM_MASK` of `update_page_flags`. -/
def permMask : Nat := Flags.apRoAll ||| Flags.apRwAll ||| Flags.uxn ||| Flags.pxn

/-- `update_page_flags`: replace the permission bits of a valid L3
descriptor; `!PERM_MASK` on a `u64` is `2 ^ 64 - 1 - PERM_MASK`. It always
returns `Ok`. -/
def updatePageFlags (va newFlags : Nat) : Machine :=
  match l3Slot m s.l0Frame va with
  | none => m
  | some slot =>
    let oldEntry := m.mem slot
    if oldEntry &&& Flags.valid = 0 then m
    else m.write slot ((oldEntry &&& (2 ^ 64 - 1 - permMask)) ||| newFlags)

/-- `update_page_flags_no_flush`. -/
def updatePageFlagsNoFlush (va newFlags : Nat) : Machine := s.updatePageFlags m va newFlags

/-- `read_l3_page_entry`: the valid L3 descriptor of the page of `va`. -/
def readL3PageEntry (va : Nat) : Option Nat :=
  match l3Slot m s.l0Frame (pageAlignDown va) with
  | none => none
  | some slot => if m.mem slot &&& Flags.valid = 0 then none else some (m.mem slot)

end UserAddressSpace

/-! ## The kernel mappings of a new address space -/

/-- The inner loop of `add_kernel_mappings`: entries `0 .. n` of the L2
table at `l2` get the 2 MiB blocks of the 1 GiB region `l1Idx` that lie in
`[ramBase, ramEnd)`. -/
def mapRamBlocks (ramBase ramEnd l1Idx l2 : Nat) (m : Machine) : Nat → Machine
  | 0 => m
  | i + 1 =>
    let m := mapRamBlocks ramBase ramEnd l1Idx l2 m i
    let pa := (l1Idx <<< 30) ||| (i <<< 21)
    if pa ≥ ramBase ∧ pa < ramEnd then m.setEntry l2 i (pa ||| kernelRamFlags) else m

/-- The outer loop of `add_kernel_mappings`, over `n` L1 indices from
`l1Idx`: one tracked L2 table each, filled by `mapRamBlocks`. -/
def mapKernelRam (ramBase ramEnd l1 : Nat) :
    Nat → Nat → UserAddressSpace → Machine → Except String (UserAddressSpace × Machine)
  | _, 0, s, m => .ok (s, m)
  | l1Idx, n + 1, s, m => do
    let (l2RamFrame, m) ← m.allocPageZeroedOr "Failed to allocate kernel RAM L2 table"
    let s := s.trackPageTableFrame l2RamFrame
    let m := m.setEntry l1 l1Idx (l2RamFrame ||| Flags.valid ||| Flags.table)
    let m := mapRamBlocks ramBase ramEnd l1Idx l2RamFrame m 512
    mapKernelRam ramBase ramEnd l1 (l1Idx + 1) n s m

/-- `add_kernel_mappings`: L0[0] gets a fresh L1 table whose entry 0 is a
fresh (empty) L2 table, L0[1] the shared device table, and the L1 entries
of RAM get L2 tables of EL1-only 2 MiB identity blocks. -/
def UserAddressSpace.addKernelMappings (c : MmuConfig) (s : UserAddressSpace) (m : Machine) :
    Except String (UserAddressSpace × Machine) := do
  let (l1Frame, m) ← m.allocPageZeroedOr "Failed to allocate L1 table"
  let s := s.trackPageTableFrame l1Frame
  let m := m.setEntry s.l0Frame 0 (l1Frame ||| Flags.valid ||| Flags.table)
  let (l2Frame, m) ← m.allocPageZeroedOr "Failed to allocate L2 table"
  let s := s.trackPageTableFrame l2Frame
  let m := m.setEntry l1Frame 0 (l2Frame ||| Flags.valid ||| Flags.table)
  let m := if c.sharedDevL1Phys ≠ 0 then
      m.setEntry s.l0Frame 1 (c.sharedDevL1Phys ||| Flags.valid ||| Flags.table)
    else m
  let ramEnd := c.ramBase + c.ramSize
  if c.ramSize > 0 then
    let startL1Idx := (c.ramBase >>> 30) &&& 0x1FF
    let endL1Idx := ((ramEnd - 1) >>> 30) &&& 0x1FF
    mapKernelRam c.ramBase ramEnd l1Frame startL1Idx (endL1Idx + 1 - startL1Idx) s m
  else pure (s, m)

/-- `UserAddressSpace::new`, given the answer `asid` of the ASID allocator.
The multikernel hook `prepare_user_address_space` is absent on the boot
CPU and is left out. -/
def UserAddressSpace.new (c : MmuConfig) (asid : Option Nat) (m : Machine) :
    Option (UserAddressSpace × Machine) := do
  let (l0Frame, m) ← m.allocPageZeroed
  let asid ← asid
  let s : UserAddressSpace := ⟨l0Frame, [], [], asid, false⟩
  (s.addKernelMappings c m).toOption

/-! ## Unmapping a page of a kernel block -/

/-- `unmap_page` of an address that a 2 MiB block maps does not unmap it:
the slot walk clears a word of the memory the block maps, and as long as
that word is not one of the descriptors the walk reads, `va` translates as
before. -/
theorem unmapPage_block_keeps_translation (s : UserAddressSpace) (m : Machine) {va e : Nat}
    (h : walk m s.l0Frame va = some (.block2M e))
    (hslot : tableAddr e + 8 * l3Index va ∉ walkReads m s.l0Frame va) :
    translateUserVa (s.unmapPage m va) s.l0Frame va = some (Leaf.outputAddr va (.block2M e)) ∧
      (s.unmapPage m va).mem (tableAddr e + 8 * l3Index va) = 0 := by
  rw [UserAddressSpace.unmapPage, s.unmapPageNoFlush_of_block2M m h]
  constructor
  · rw [translateUserVa_eq_walk, walk_write_of_not_mem m hslot, h]
    rfl
  · simp

/-- In a new address space over 2 MiB of RAM at `0x4000_0000`, unmapping
the first page of RAM leaves it translated and clears the first word of
kernel RAM. -/
theorem unmapPage_kernel_page_stays_mapped :
    ∃ s m, UserAddressSpace.new ⟨0x4000_0000, 0x20_0000, 0⟩ (some 1)
        ⟨fun _ => 7, [0x4010_0000, 0x4010_1000, 0x4010_2000, 0x4010_3000]⟩ = some (s, m) ∧
      m.mem 0x4000_0000 = 7 ∧
      translateUserVa (s.unmapPage m 0x4000_0000) s.l0Frame 0x4000_0000 = some 0x4000_0000 ∧
      (s.unmapPage m 0x4000_0000).mem 0x4000_0000 = 0 := by
  obtain ⟨⟨s, m⟩, hnew⟩ := Option.isSome_iff_exists.mp (by decide +kernel :
    (UserAddressSpace.new ⟨0x4000_0000, 0x20_0000, 0⟩ (some 1)
      ⟨fun _ => 7, [0x4010_0000, 0x4010_1000, 0x4010_2000, 0x4010_3000]⟩).isSome)
  -- read the walk, its descriptors and the RAM word off the new space
  have hfacts : (UserAddressSpace.new ⟨0x4000_0000, 0x20_0000, 0⟩ (some 1)
      ⟨fun _ => 7, [0x4010_0000, 0x4010_1000, 0x4010_2000, 0x4010_3000]⟩).map
        (fun r => (walk r.2 r.1.l0Frame 0x4000_0000,
          decide (0x4000_0000 ∉ walkReads r.2 r.1.l0Frame 0x4000_0000), r.2.mem 0x4000_0000)) =
      some (some (.block2M (0x4000_0000 ||| kernelRamFlags)), true, 7) := by
    decide +kernel
  rw [hnew] at hfacts
  simp only [Option.map_some, Option.some.injEq, Prod.mk.injEq, decide_eq_true_eq] at hfacts
  obtain ⟨hwalk, hslot, hmem⟩ := hfacts
  have hslot0 : tableAddr (0x4000_0000 ||| kernelRamFlags) + 8 * l3Index 0x4000_0000 = 0x4000_0000 :=
    by decide
  have hout0 : Leaf.outputAddr 0x4000_0000 (.block2M (0x4000_0000 ||| kernelRamFlags)) =
      0x4000_0000 := by decide
  have hout := unmapPage_block_keeps_translation s m hwalk (hslot0 ▸ hslot)
  rw [hslot0, hout0] at hout
  exact ⟨s, m, hnew, hmem, hout⟩

end Akuma.Mmu
