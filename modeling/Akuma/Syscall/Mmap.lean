import Akuma.Mmu.AddressSpace

/-!
# `mmap`

`sys_mmap` of `syscall/mem.rs` with the process-side state it uses: the
mmap bump allocator and free list of `ProcessMemory`, the lazy (demand
paged) regions of `LAZY_REGION_TABLE`, the eager mapping loop, and the
guards that keep a `MAP_FIXED` address out of the kernel identity window.

Arithmetic on `usize` wraps modulo `2 ^ 64`, as in a release build. The
model runs one process, the caller; what `sys_mmap` reads of it besides
memory is its file table (which descriptors are files, and their paths)
and the inode numbers the VFS resolves for paths. The eager file-backed
path copies file contents into the new frames; those bytes are not
modelled. An eager allocation that fails is retried once after
`reclaim_clean_file_pages` has evicted clean pages of the caller's
file-backed lazy regions (`reclaimCleanFilePages`); it frees at most as
many frames as it is asked for (`reclaimCleanFilePages_freed_le`).
-/

namespace Akuma.Syscall

open Akuma.Mmu

/-! ## Constants -/

/-- `MAP_SHARED`. -/
def mapShared : Nat := 0x01
/-- `MAP_PRIVATE`. -/
def mapPrivate : Nat := 0x02
/-- `MAP_FIXED`. -/
def mapFixed : Nat := 0x10
/-- `MAP_ANONYMOUS`. -/
def mapAnonymous : Nat := 0x20
/-- `MAP_NORESERVE`. -/
def mapNoreserve : Nat := 0x4000
/-- `MAP_POPULATE`. -/
def mapPopulate : Nat := 0x8000
/-- `MAP_FIXED_NOREPLACE`. -/
def mapFixedNoreplace : Nat := 0x100000
/-- `PROT_NONE`. -/
def protNone : Nat := 0
/-- `PROT_WRITE`. -/
def protWrite : Nat := 0x2

/-- `(-errno) as u64`. -/
def negErrno (e : Nat) : Nat := 2 ^ 64 - e
/-- `ESRCH`. -/
def esrch : Nat := negErrno 3
/-- `ENOMEM`. -/
def enomem : Nat := negErrno 12
/-- `EINVAL`. -/
def einval : Nat := negErrno 22

/-- `config::MMAP_EAGER_MAX_PAGES`. -/
def mmapEagerMaxPages : Nat := 16
/-- `config::MMAP_FILE_BACKED_LAZY`. -/
def mmapFileBackedLazy : Bool := true

/-- A `usize` result, reduced modulo `2 ^ 64`. -/
def wrap (x : Nat) : Nat := x % 2 ^ 64

/-- `usize::saturating_add`. -/
def saturatingAdd (a b : Nat) : Nat := min (a + b) (2 ^ 64 - 1)

/-! ## `ProcessMemory` -/

/-- The fields of `ProcessMemory` that mmap allocation reads. -/
structure ProcessMemory where
  stackBottom : Nat
  stackTop : Nat
  nextMmap : Nat
  mmapLimit : Nat
  freeRegions : List (Nat × Nat)

namespace ProcessMemory

variable (pm : ProcessMemory)

/-- `ProcessMemory::new`: the mmap area starts 256 MiB past the code,
rounded down to 64 KiB (`!0xFFFF` on a `usize` is `2 ^ 64 - 0x10000`), or
at the floor if that is higher, and ends 1 MiB below the stack
(`saturating_sub`). -/
def new (codeEnd stackBottom stackTop mmapFloor : Nat) : ProcessMemory :=
  let base := wrap (codeEnd + 0x1000_0000) &&& (2 ^ 64 - 0x10000)
  ⟨stackBottom, stackTop, max base mmapFloor, stackBottom - 0x10_0000, []⟩

/-- `overlaps_stack`. -/
def overlapsStack (addr size : Nat) : Bool :=
  addr < pm.stackTop ∧ saturatingAdd addr size > pm.stackBottom

/-- The first free region that lies clear of the kernel window and holds
`size` bytes, with the list it is removed from. -/
def takeFreeRegion (kvaEnd size : Nat) : List (Nat × Nat) → Option (Nat × Nat × List (Nat × Nat))
  | [] => none
  | (start, fSize) :: rest =>
    if (start < kvaEnd ∧ wrap (start + fSize) > kernelVaStart) ∨ fSize < size then
      (takeFreeRegion kvaEnd size rest).map fun (a, f, rs) => (a, f, (start, fSize) :: rs)
    else some (start, fSize, rest)

/-- `alloc_mmap`: reuse a free region (its remainder is pushed back at the
end of the list), or bump `next_mmap`, jumping over the kernel window. -/
def allocMmap (c : MmuConfig) (size : Nat) : Option Nat × ProcessMemory :=
  let kvaEnd := c.kernelVaEnd
  match takeFreeRegion kvaEnd size pm.freeRegions with
  | some (start, fSize, rest) =>
    let freeRegions := if fSize > size then rest ++ [(wrap (start + size), fSize - size)] else rest
    (some start, { pm with freeRegions })
  | none =>
    let cur := pm.nextMmap
    let candidate := if cur < kvaEnd ∧ wrap (cur + size) > kernelVaStart then kvaEnd else cur
    if pm.overlapsStack candidate size then (none, pm)
    else if wrap (candidate + size) > pm.mmapLimit then (none, pm)
    else (some candidate, { pm with nextMmap := wrap (candidate + size) })

/-- `free_mmap`: the range goes to the end of the free list. -/
def freeMmap (start size : Nat) : ProcessMemory :=
  { pm with freeRegions := pm.freeRegions ++ [(start, size)] }

/-- The bump path, when no free region fits and the candidate lies at or
above the stack: only the limit is checked, against the end of the range
as a `usize` sum, which wraps. A size that carries the end past `2 ^ 64`
and back under the limit is handed out, and `next_mmap` falls back to
that wrapped end. -/
theorem allocMmap_of_wrapped_end {c : MmuConfig} {size candidate : Nat}
    (hfree : takeFreeRegion c.kernelVaEnd size pm.freeRegions = none)
    (hcand : candidate = if pm.nextMmap < c.kernelVaEnd ∧ wrap (pm.nextMmap + size) > kernelVaStart
      then c.kernelVaEnd else pm.nextMmap)
    (habove : pm.stackTop ≤ candidate) (hwrap : 2 ^ 64 ≤ candidate + size)
    (hsmall : candidate + size < 2 ^ 64 + 2 ^ 64) (hlimit : candidate + size - 2 ^ 64 ≤ pm.mmapLimit) :
    pm.allocMmap c size = (some candidate, { pm with nextMmap := candidate + size - 2 ^ 64 }) := by
  have hend : wrap (candidate + size) = candidate + size - 2 ^ 64 := by
    unfold wrap
    omega
  have hstack : pm.overlapsStack candidate size = false := by
    simp [overlapsStack]
    omega
  simp only [allocMmap, hfree, ← hcand, hstack, hend]
  simp
  omega

/-- Three allocations in a process whose stack lies below the kernel window
(`ProcessMemory::new(0x10000, 0x3000_0000, 0x3010_0000, 0)`, 2 GiB of RAM
from 1 GiB). The second size jumps the window to `0xC000_0000`, above the
stack, and its end wraps past `2 ^ 64` to `0x1000_0000`, under the limit:
it is handed out, and `next_mmap` falls back below the first range. The
third call then returns `0x1000_0000`, whose 128 KiB cover the first
range's page at `0x1001_0000`. -/
theorem allocMmap_wraps_into_allocated_range :
    (let c : MmuConfig := ⟨0x4000_0000, 0x8000_0000, 0⟩
     let r1 := (new 0x10000 0x3000_0000 0x3010_0000 0).allocMmap c 0x1000
     let r2 := r1.2.allocMmap c (2 ^ 64 - 0xB000_0000)
     let r3 := r2.2.allocMmap c 0x2_0000
     r1.1 = some 0x1001_0000 ∧ r2.1 = some 0xC000_0000 ∧ r3.1 = some 0x1000_0000 ∧
       r2.2.mmapLimit < 0xC000_0000 + (2 ^ 64 - 0xB000_0000)) := by
  intro c r1 r2 r3
  -- the second call jumps the window to above the stack, and its end wraps under the limit
  have h2 : r2 = (some 0xC000_0000, { r1.2 with nextMmap := 0xC000_0000 + (2 ^ 64 - 0xB000_0000) - 2 ^ 64 }) :=
    allocMmap_of_wrapped_end r1.2 (by decide) (by decide) (by decide) (by decide) (by decide) (by decide)
  refine ⟨by decide, by rw [h2], ?_, by decide⟩
  -- the third call bumps from the wrapped end, below the first range
  show (r2.2.allocMmap c 0x2_0000).1 = some 0x1000_0000
  rw [h2]
  decide

end ProcessMemory

/-! ## Lazy regions -/

/-- `LazySource`. -/
inductive LazySource where
  | zero
  | file (path : String) (inode fileOffset filesz segmentVa : Nat)
  deriving DecidableEq, Repr

/-- `LazyRegion`. -/
structure LazyRegion where
  startVa : Nat
  size : Nat
  flags : Nat
  source : LazySource
  deriving DecidableEq, Repr

/-- `BTreeMap::insert` on the lazy regions of a process, keyed and ordered
by start address. -/
def insertRegion (r : LazyRegion) : List LazyRegion → List LazyRegion
  | [] => [r]
  | x :: xs =>
    if r.startVa < x.startVa then r :: x :: xs
    else if r.startVa = x.startVa then r :: xs
    else x :: insertRegion r xs

/-- `push_lazy_region_with_source`: the new table and its size. -/
def pushLazyRegionWithSource (regions : List LazyRegion) (startVa size pageFlags : Nat)
    (source : LazySource) : List LazyRegion × Nat :=
  let regions := insertRegion ⟨startVa, size, pageFlags, source⟩ regions
  (regions, regions.length)

/-- `munmap_lazy_region_overlapping`: cut `[rangeStart, rangeEnd)` out of the
first region (in address order) that overlaps it. -/
def munmapLazyRegionOverlapping (rangeStart rangeEnd : Nat) (regions : List LazyRegion) :
    Option (List LazyRegion) :=
  match regions.find? (fun r => r.startVa < rangeEnd ∧ wrap (r.startVa + r.size) > rangeStart) with
  | none => none
  | some r =>
    let regEnd := wrap (r.startVa + r.size)
    let clipStart := max rangeStart r.startVa
    let clipEnd := min rangeEnd regEnd
    let others := regions.filter (fun x => x.startVa ≠ r.startVa)
    if clipStart = r.startVa ∧ clipEnd = regEnd then some others
    else if clipStart = r.startVa then
      some (insertRegion { r with startVa := clipEnd, size := regEnd - clipEnd } others)
    else if clipEnd = regEnd then
      some (insertRegion { r with size := clipStart - r.startVa } others)
    else
      some (insertRegion { r with startVa := clipEnd, size := regEnd - clipEnd }
        (insertRegion { r with size := clipStart - r.startVa } others))

/-- `munmap_lazy_regions_in_range`: repeat the cut while a region overlaps.
Each cut removes one overlapping region and adds none, so one round per
region, and one more to find none, is enough fuel. -/
def munmapLazyRegionsInRange (unmapAddr unmapLen : Nat) (regions : List LazyRegion) :
    List LazyRegion :=
  go (regions.length + 1) regions
where
  go : Nat → List LazyRegion → List LazyRegion
    | 0, rs => rs
    | fuel + 1, rs =>
      match munmapLazyRegionOverlapping unmapAddr (wrap (unmapAddr + unmapLen)) rs with
      | some rs' => go fuel rs'
      | none => rs

/-- `lazy_region_lookup_for_pid` on the caller's table: the last region
that starts at or below `va` (`range(..=va).next_back()`), if `va` lies
inside it; its flags, source, start and size. -/
def lazyRegionLookup (regions : List LazyRegion) (va : Nat) : Option (Nat × LazySource × Nat × Nat) :=
  match (regions.filter (·.startVa ≤ va)).getLast? with
  | some r => if va < wrap (r.startVa + r.size) then some (r.flags, r.source, r.startVa, r.size) else none
  | none => none

/-- A region the lookup returns starts at or below `va` and ends after it. -/
theorem lazyRegionLookup_some {regions : List LazyRegion} {va flags start size : Nat}
    {source : LazySource} (h : lazyRegionLookup regions va = some (flags, source, start, size)) :
    start ≤ va ∧ va < wrap (start + size) := by
  unfold lazyRegionLookup at h
  split at h
  · rename_i r hr
    split_ifs at h with hva
    simp only [Option.some.injEq, Prod.mk.injEq] at h
    obtain ⟨-, -, rfl, rfl⟩ := h
    have hmem := List.mem_of_getLast? hr
    exact ⟨by simpa using (List.mem_filter.mp hmem).2, hva⟩
  · cases h

/-! ## The state `sys_mmap` acts on -/

/-- An entry of `SHARED_FILE_MAPPINGS`, keyed by its base address. -/
structure SharedFileMapping where
  base : Nat
  path : String
  fileOffset : Nat
  len : Nat
  deriving DecidableEq, Repr

/-- The calling process and the global tables `sys_mmap` touches. -/
structure MmapState where
  machine : Machine
  space : UserAddressSpace
  memory : ProcessMemory
  lazyRegions : List LazyRegion
  mmapRegions : List (Nat × List Nat)
  sharedFileMappings : List SharedFileMapping
  reclaimCursor : Nat

/-- What `sys_mmap` reads and does not change: the MMU configuration, the
paths of the caller's file descriptors, and `vfs::resolve_inode`. -/
structure MmapEnv where
  mmu : MmuConfig
  filePath : Int → Option String
  resolveInode : String → Nat

/-! ## Guards -/

/-- `mmap_fixed_addr_unaligned_einval`. -/
def mmapFixedAddrUnalignedEinval (addr flags : Nat) : Bool :=
  let isFixed := flags &&& mapFixed ≠ 0
  let isFixedNoreplace := flags &&& mapFixedNoreplace ≠ 0
  (isFixed ∨ isFixedNoreplace) ∧ addr ≠ 0 ∧ addr &&& 0xFFF ≠ 0

/-- `mmap_fixed_overlaps_kernel_va`: the guard compares the whole 64-bit
range `[addr, addr + len)` with the kernel window. -/
def mmapFixedOverlapsKernelVa (c : MmuConfig) (addr len : Nat) : Bool :=
  let pages := (len + 4095) / 4096
  let mapEnd := saturatingAdd addr (wrap (pages * 4096))
  addr < c.kernelVaEnd ∧ mapEnd > kernelVaStart

/-- The guard passes every address at or above the end of the window,
whatever its low 48 bits, which are all the page-table walks read. -/
theorem mmapFixedOverlapsKernelVa_of_le {c : MmuConfig} {addr : Nat} (h : c.kernelVaEnd ≤ addr)
    (len : Nat) : mmapFixedOverlapsKernelVa c addr len = false := by
  simp [mmapFixedOverlapsKernelVa, Nat.not_lt.mpr h]

/-! ## Page loops -/

/-- `for i in 0..n { unmap_page(addr + i * 4096) }`. -/
def unmapPages (s : UserAddressSpace) (addr : Nat) : Nat → Machine → Machine
  | 0, m => m
  | n + 1, m => s.unmapPage (unmapPages s addr n m) (wrap (addr + n * 4096))

/-- The eager mapping loop: frame `i` of the batch is mapped at
`addr + i * 4096` by `map_user_page_no_flush` and tracked, with the table
frames the walk allocated. -/
def mapFrames (ttbr0 addr flags : Nat) :
    Nat → List Nat → UserAddressSpace → Machine → UserAddressSpace × Machine
  | _, [], s, m => (s, m)
  | i, frame :: frames, s, m =>
    let r := mapUserPageNoFlush m ttbr0 (wrap (addr + i * 4096)) frame flags
    let s := r.tables.foldl UserAddressSpace.trackPageTableFrame (s.trackUserFrame frame)
    mapFrames ttbr0 addr flags (i + 1) frames s r.machine

/-- `for i in 0..n { update_page_flags(addr + i * 4096, flags) }`. -/
def updatePages (s : UserAddressSpace) (addr flags : Nat) : Nat → Machine → Machine
  | 0, m => m
  | n + 1, m => s.updatePageFlags (updatePages s addr flags n m) (wrap (addr + n * 4096)) flags

/-- `pmm::free_page`: the frame can be allocated again. -/
def freePage (m : Machine) (frame : Nat) : Machine := { m with free := frame :: m.free }

/-! ## Reclaiming clean file pages -/

/-- `USER_PAGE_RESERVE`. -/
def userPageReserve : Nat := 16

/-- `MAX_SCAN` of `reclaim_clean_file_pages`. -/
def reclaimMaxScan : Nat := 262_144

/-- What the sweep of `reclaim_clean_file_pages` carries: the address space
and machine it evicts from, the frames freed and the pages scanned. -/
structure ReclaimSweep where
  space : UserAddressSpace
  machine : Machine
  freed : Nat
  scanned : Nat

/-- One page of the sweep: `try_evict_ro_page`, and `free_page` of the
frame it gives back. -/
def ReclaimSweep.evict (sw : ReclaimSweep) (va : Nat) : ReclaimSweep :=
  match sw.space.tryEvictRoPage sw.machine va with
  | (some frame, space, machine) => ⟨space, freePage machine frame, sw.freed + 1, sw.scanned + 1⟩
  | (none, space, machine) => ⟨space, machine, sw.freed, sw.scanned + 1⟩

/-- The `while va < end` loop over the `n` pages from `va`: at the first
page it reaches once `want` frames are freed or `MAX_SCAN` pages scanned, it
stops and gives that page as the next cursor. -/
def sweepPages (want : Nat) : Nat → Nat → ReclaimSweep → ReclaimSweep × Option Nat
  | 0, _, sw => (sw, none)
  | n + 1, va, sw =>
    if sw.freed ≥ want ∨ sw.scanned ≥ reclaimMaxScan then (sw, some va)
    else sweepPages want n (va + 0x1000) (sw.evict va)

/-- The `'sweep` loop over the regions `(start, size)`, each resumed at the
cursor if it starts below it. -/
def sweepRegions (want cursor : Nat) : List (Nat × Nat) → ReclaimSweep → ReclaimSweep × Option Nat
  | [], sw => (sw, none)
  | (start, size) :: regions, sw =>
    let regionEnd := wrap (start + size)
    let va := if start < cursor then cursor &&& (2 ^ 64 - 0x1000) else start
    if va ≥ regionEnd then sweepRegions want cursor regions sw
    else
      match sweepPages want ((regionEnd - va + 0xFFF) / 0x1000) va sw with
      | (sw, some next) => (sw, some next)
      | (sw, none) => sweepRegions want cursor regions sw

/-- Whether a lazy region is backed by a file. -/
def LazySource.isFile : LazySource → Bool
  | .file .. => true
  | .zero => false

/-- `reclaim_clean_file_pages(want)` for the caller: evict clean pages of
its first 64 file-backed lazy regions, from `RECLAIM_CURSOR` on; the number
of frames freed. -/
def reclaimCleanFilePages (st : MmapState) (want : Nat) : Nat × MmapState :=
  if want = 0 then (0, st) else
  let regions := ((st.lazyRegions.filter (·.source.isFile)).take 64).map fun r => (r.startVa, r.size)
  if regions = [] then (0, st) else
  let (sw, next) := sweepRegions want st.reclaimCursor regions ⟨st.space, st.machine, 0, 0⟩
  (sw.freed, { st with space := sw.space, machine := sw.machine, reclaimCursor := next.getD 0 })

/-- A page of the sweep frees at most one frame. -/
theorem ReclaimSweep.freed_evict_le (sw : ReclaimSweep) (va : Nat) : (sw.evict va).freed ≤ sw.freed + 1 := by
  unfold ReclaimSweep.evict
  split <;> simp

/-- The page loop stops once `want` frames are freed. -/
theorem sweepPages_freed_le {want : Nat} :
    ∀ {n va : Nat} {sw sw' : ReclaimSweep} {next : Option Nat},
      sweepPages want n va sw = (sw', next) → sw.freed ≤ want → sw'.freed ≤ want
  | 0, _, _, _, _, h, hle => by
    cases h
    exact hle
  | n + 1, va, sw, _, _, h, hle => by
    unfold sweepPages at h
    split_ifs at h with hstop
    · cases h
      exact hle
    · -- below `want` before the page, so at most `want` after it
      have := sw.freed_evict_le va
      exact sweepPages_freed_le h (by omega)

theorem sweepRegions_freed_le {want cursor : Nat} :
    ∀ {regions : List (Nat × Nat)} {sw sw' : ReclaimSweep} {next : Option Nat},
      sweepRegions want cursor regions sw = (sw', next) → sw.freed ≤ want → sw'.freed ≤ want
  | [], _, _, _, h, hle => by
    cases h
    exact hle
  | (start, size) :: regions, sw, _, _, h, hle => by
    unfold sweepRegions at h
    dsimp only at h
    -- where the region's sweep starts does not matter
    generalize (if start < cursor then cursor &&& (2 ^ 64 - 0x1000) else start) = va at h
    split_ifs at h
    · exact sweepRegions_freed_le h hle
    · rcases hsweep : sweepPages want ((wrap (start + size) - va + 0xFFF) / 0x1000) va sw with
        ⟨sw₁, _ | next₁⟩ <;> rw [hsweep] at h
      · exact sweepRegions_freed_le h (sweepPages_freed_le hsweep hle)
      · cases h
        exact sweepPages_freed_le hsweep hle

/-- `reclaim_clean_file_pages(want)` frees at most `want` frames. -/
theorem reclaimCleanFilePages_freed_le (st : MmapState) (want : Nat) :
    (reclaimCleanFilePages st want).1 ≤ want := by
  unfold reclaimCleanFilePages
  dsimp only
  split_ifs
  · exact Nat.zero_le _
  · exact Nat.zero_le _
  · exact sweepRegions_freed_le Prod.mk.eta.symm (Nat.zero_le _)

/-- `alloc_pages_zeroed`: `count` free frames, each cleared. -/
def allocPagesZeroed (m : Machine) (count : Nat) : Option (List Nat × Machine) :=
  if count ≤ m.free.length then
    let frames := m.free.take count
    some (frames, { mem := frames.foldl Machine.zeroPage m.mem, free := m.free.drop count })
  else none

/-! ## `sys_mmap` -/

section SysMmap

variable (env : MmapEnv)

/-- `mmap_eager_to_lazy_fallback`. -/
def mmapEagerToLazyFallback (st : MmapState) (isFileBacked : Bool) (fd : Int)
    (offset len mmapAddr pages pageFlags : Nat) : Nat × MmapState :=
  if isFileBacked then
    match env.filePath fd with
    | some path =>
      let source := LazySource.file path (env.resolveInode path) offset len mmapAddr
      let (regions, _) := pushLazyRegionWithSource st.lazyRegions mmapAddr
        (wrap (pages * 4096)) pageFlags source
      (mmapAddr, { st with lazyRegions := regions })
    | none => (enomem, st)
  else
    let (regions, _) := pushLazyRegionWithSource st.lazyRegions mmapAddr
      (wrap (pages * 4096)) pageFlags .zero
    (mmapAddr, { st with lazyRegions := regions })

/-- The eager tail of `sys_mmap`, once the address is chosen: allocate and
map every page, restore the requested permissions of a file mapping, and
record the region. -/
def mmapEager (st : MmapState) (fd : Int) (offset len mmapAddr pages : Nat)
    (isFileBacked isSharedWritable : Bool) (pageFlags : Nat) : Nat × MmapState :=
  let initialFlags := if isFileBacked then UserFlags.rwNoExec else pageFlags
  -- the batch, or a second try after a reclaim that freed something
  let batch : Option (List Nat × Machine) × MmapState :=
    match allocPagesZeroed st.machine pages with
    | some r => (some r, st)
    | none =>
      let (reclaimed, st) := reclaimCleanFilePages st (pages + userPageReserve)
      if reclaimed > 0 then (allocPagesZeroed st.machine pages, st) else (none, st)
  match batch with
  | (none, st) =>
    if isSharedWritable then (enomem, st)
    else mmapEagerToLazyFallback env st isFileBacked fd offset len mmapAddr pages pageFlags
  | (some (frames, m), st) =>
    let (space, m) := mapFrames st.space.ttbr0 mmapAddr initialFlags 0 frames st.space m
    let m := if isFileBacked ∧ pageFlags ≠ initialFlags then
        updatePages space mmapAddr pageFlags pages m
      else m
    let shared := match env.filePath fd with
      | some path =>
        if isSharedWritable then st.sharedFileMappings ++ [⟨mmapAddr, path, offset, len⟩]
        else st.sharedFileMappings
      | none => st.sharedFileMappings
    (mmapAddr,
      { st with
        machine := m
        space := space
        sharedFileMappings := shared
        mmapRegions := st.mmapRegions ++ [(mmapAddr, frames)] })

/-- `sys_mmap`: the value returned in `x0` and the state after. -/
def sysMmap (st : MmapState) (addr len prot flags : Nat) (fd : Int) (offset : Nat) :
    Nat × MmapState :=
  if len = 0 then (einval, st) else
  let pages := (len + 4095) / 4096
  let pageFlags := UserFlags.fromProt prot
  let isLazy := prot = protNone ∧ flags &&& mapAnonymous ≠ 0
  let isFixed := flags &&& mapFixed ≠ 0
  let isFixedNoreplace := flags &&& mapFixedNoreplace ≠ 0
  let mapPopulateSet := flags &&& mapPopulate ≠ 0
  if mmapFixedAddrUnalignedEinval addr flags then (einval, st) else
  -- choose the address: a fixed one after the kernel-window guard, with the
  -- old contents of the range unmapped, or one from `alloc_mmap`
  let chosen : Option (Nat × MmapState) :=
    if (isFixed ∨ isFixedNoreplace) ∧ addr ≠ 0 then
      if mmapFixedOverlapsKernelVa env.mmu addr (wrap (pages * 4096)) then none
      else if isFixed then
        let lazy := munmapLazyRegionsInRange addr (wrap (pages * 4096)) st.lazyRegions
        some (addr,
          { st with
            lazyRegions := lazy
            machine := unmapPages st.space addr pages st.machine })
      else some (addr, st)
    else
      match st.memory.allocMmap env.mmu (wrap (pages * 4096)) with
      | (some a, memory) => some (a, { st with memory := memory })
      | (none, _) => none
  match chosen with
  | none =>
    -- the guard's `EINVAL`, or `alloc_mmap`'s `ENOMEM`
    if (isFixed ∨ isFixedNoreplace) ∧ addr ≠ 0 then (einval, st) else (enomem, st)
  | some (mmapAddr, st) =>
    let isFileBacked := flags &&& mapAnonymous = 0 ∧ fd ≥ 0
    let isSharedWritable := flags &&& mapShared ≠ 0 ∧ isFileBacked ∧ prot &&& protWrite ≠ 0
    let useLazy := !isFileBacked ∧ !mapPopulateSet ∧
      (isLazy ∨ flags &&& mapNoreserve ≠ 0 ∨ pages > mmapEagerMaxPages)
    if useLazy then
      let (regions, _) := pushLazyRegionWithSource st.lazyRegions mmapAddr
        (wrap (pages * 4096)) pageFlags .zero
      (mmapAddr, { st with lazyRegions := regions })
    else
      match env.filePath fd with
      | some path =>
        if mmapFileBackedLazy ∧ isFileBacked ∧ !isSharedWritable then
          let source := LazySource.file path (env.resolveInode path) offset len mmapAddr
          let (regions, _) := pushLazyRegionWithSource st.lazyRegions mmapAddr
            (wrap (pages * 4096)) pageFlags source
          (mmapAddr, { st with lazyRegions := regions })
        else mmapEager env st fd offset len mmapAddr pages isFileBacked
          isSharedWritable pageFlags
      | none => mmapEager env st fd offset len mmapAddr pages isFileBacked
          isSharedWritable pageFlags

end SysMmap

/-! ## A fixed mapping above `2 ^ 48`

`MAP_FIXED` at `2 ^ 48 + 0x4000_0000` lies above the kernel window, so the
guard lets it through, but its walk indices are those of `0x4000_0000`.
In an address space from `UserAddressSpace::new` that walk reaches the 2 MiB
kernel block for `0x4000_0000`: the unmapping loop clears the first word of
kernel RAM, and the mapping loop splits the kernel block into a table. -/

theorem sysMmap_fixed_alias_of_kernel_window :
    ∃ s m, UserAddressSpace.new ⟨0x4000_0000, 0x2000_0000, 0⟩ (some 1)
        ⟨fun a => if a = 0x4000_0000 then 0xD503201F else 0,
          (List.range 8).map (0x4100_0000 + 0x1000 * ·)⟩ = some (s, m) ∧
      walk m s.l0Frame 0x4000_0000 = some (.block2M (0x4000_0000 ||| kernelRamFlags)) ∧
      m.mem 0x4000_0000 = 0xD503201F ∧
      (sysMmap ⟨⟨0x4000_0000, 0x2000_0000, 0⟩, fun _ => none, fun _ => 0⟩
          ⟨m, s, ⟨0x3F_FF00_0000, 0x40_0000_0000, 0x1000_0000, 0x3F_FEF0_0000, []⟩, [], [], [], 0⟩
          0x1_0000_4000_0000 4096 3 0x32 (-1) 0).1 = 0x1_0000_4000_0000 ∧
      (sysMmap ⟨⟨0x4000_0000, 0x2000_0000, 0⟩, fun _ => none, fun _ => 0⟩
          ⟨m, s, ⟨0x3F_FF00_0000, 0x40_0000_0000, 0x1000_0000, 0x3F_FEF0_0000, []⟩, [], [], [], 0⟩
          0x1_0000_4000_0000 4096 3 0x32 (-1) 0).2.machine.mem 0x4000_0000 = 0 ∧
      walk (sysMmap ⟨⟨0x4000_0000, 0x2000_0000, 0⟩, fun _ => none, fun _ => 0⟩
          ⟨m, s, ⟨0x3F_FF00_0000, 0x40_0000_0000, 0x1000_0000, 0x3F_FEF0_0000, []⟩, [], [], [], 0⟩
          0x1_0000_4000_0000 4096 3 0x32 (-1) 0).2.machine s.l0Frame 0x4000_0000 ≠
        walk m s.l0Frame 0x4000_0000 := by
  have h : (UserAddressSpace.new ⟨0x4000_0000, 0x2000_0000, 0⟩ (some 1)
      ⟨fun a => if a = 0x4000_0000 then 0xD503201F else 0,
        (List.range 8).map (0x4100_0000 + 0x1000 * ·)⟩).isSome := by decide +kernel
  exact ⟨_, _, (Option.some_get h).symm, by decide +kernel⟩

/-! ## `MAP_FIXED_NOREPLACE` over a lazy region

`MAP_FIXED_NOREPLACE` neither fails on an occupied range nor unmaps it: a
one-page `PROT_NONE` mapping in the middle of a three-page one adds a second
lazy region inside the first. The lookup consults only the last region that
starts at or below the address, so the third page of the first mapping,
which no later call removed, is no longer found. -/

theorem lazyRegionLookup_misses_after_fixed_noreplace :
    (let env : MmapEnv := ⟨⟨0x4000_0000, 0x2000_0000, 0⟩, fun _ => none, fun _ => 0⟩
     let st : MmapState := ⟨⟨fun _ => 0, []⟩, ⟨0x4100_0000, [], [], 1, false⟩,
       ⟨0x3F_FF00_0000, 0x40_0000_0000, 0x1000_0000, 0x3F_FEF0_0000, []⟩, [], [], [], 0⟩
     let r1 := sysMmap env st 0x1000_0000 0x3000 protNone (mapPrivate ||| mapAnonymous ||| mapFixed) (-1) 0
     let r2 := sysMmap env r1.2 0x1000_1000 0x1000 protNone
       (mapPrivate ||| mapAnonymous ||| mapFixedNoreplace) (-1) 0
     r1.1 = 0x1000_0000 ∧ r2.1 = 0x1000_1000 ∧
       r2.2.lazyRegions.map (fun r => (r.startVa, r.size)) =
         [(0x1000_0000, 0x3000), (0x1000_1000, 0x1000)] ∧
       lazyRegionLookup r2.2.lazyRegions 0x1000_2000 = none) := by
  decide +kernel

end Akuma.Syscall
