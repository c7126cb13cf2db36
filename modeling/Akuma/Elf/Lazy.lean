import Akuma.Elf.Load

/-!
# The demand-paged ELF image

`load_elf_from_path` (`elf/mod.rs`) maps no page of the file. Each `PT_LOAD`
segment becomes a lazy region over its pages, backed by the file bytes it
holds (`boundary_extended_filesz`), and each gap between segments becomes a
zero-fill region. `Process::from_elf_path` registers them with
`push_lazy_region_with_source`. A translation fault inside a region then
fills the page, and reads ahead over the rest of the region
(`exceptions.rs`).

The image is kept as the bytes of each mapped page, by page address; the
frames behind them are left out. So are the read-ahead budget and the
single-page retry it falls back to: every fault here gets the frames it
asks for. The file is the list of its bytes, and a read past its end leaves
the zeros of the fresh frame. `read_at_by_inode` and `read_at` return the
same bytes here. The rest of `LoadedElf` (entry point, `brk`, program
header address, interpreter) is computed as in `loadElf`, and is left out.
-/

namespace Akuma.Elf

open Akuma.Mmu Akuma.Syscall

/-- `READAHEAD_PAGES`. -/
def readaheadPages : Nat := 256

/-- `(x + PAGE_SIZE - 1) & !(PAGE_SIZE - 1)` in `usize`. -/
def pageAlignUp (x : Nat) : Nat := pageAlignDown (wrap (x + pageSize - 1))

/-- `boundary_extended_filesz`: when another segment starts after `vaddr`
inside the last page of this segment's file bytes, those bytes are taken
to run on to the end of that page, or to the end of the other segment's
file bytes if that comes first. -/
def boundaryExtendedFilesz (vaddr filesz : Nat) (ptLoads : List (Nat × Nat)) : Nat :=
  let segLastPageEnd := pageAlignUp (wrap (vaddr + filesz))
  ptLoads.foldl (fun eff load =>
    if load.1 > vaddr ∧ load.1 < segLastPageEnd then max eff (min segLastPageEnd load.2 - vaddr)
    else eff) filesz

/-- `DeferredLazySegment`, with its `file_source` already in the form
`from_elf_path` registers (`None` becomes `LazySource::Zero`). -/
structure DeferredLazySegment where
  startVa : Nat
  size : Nat
  pageFlags : Nat
  source : LazySource
  deriving DecidableEq, Repr

section Segments

variable (base : Nat) (phdrs : List ProgramHeader)

/-- The `PT_LOAD` headers. -/
def loadHeaders : List ProgramHeader := phdrs.filter (·.pType = ptLoad)

/-- `pt_loads`: the start and the end of the file bytes of each segment. -/
def ptLoads : List (Nat × Nat) :=
  (loadHeaders phdrs).map fun p => (wrap (base + p.pVaddr), wrap (wrap (base + p.pVaddr) + p.pFilesz))

/-- The body of the `PT_LOAD` loop: the segment's pages as one region,
backed by its (extended) file bytes. -/
def deferSegment (path : String) (inode : Nat) (ph : ProgramHeader) : DeferredLazySegment :=
  let vaddr := wrap (base + ph.pVaddr)
  let filesz := boundaryExtendedFilesz vaddr ph.pFilesz (ptLoads base phdrs)
  let pageFlags := if ph.pFlags &&& pfX ≠ 0 then UserFlags.rx else UserFlags.rwNoExec
  let startPage := pageAlignDown vaddr
  let endPage := pageAlignUp (wrap (vaddr + ph.pMemsz))
  ⟨startPage, wrap (endPage + 2 ^ 64 - startPage), pageFlags,
    .file path inode ph.pOffset filesz vaddr⟩

/-- The gap regions: the page ranges of the segments sorted by start
(`sort_by_key` is stable, as `insertionSort` is), and a zero-fill region
between two neighbours that leave a hole. -/
def gapSegments : List DeferredLazySegment :=
  let loadSegments := ((loadHeaders phdrs).map fun p =>
      let va := wrap (base + p.pVaddr)
      (pageAlignDown va, pageAlignUp (wrap (va + p.pMemsz)))).insertionSort (fun a b => a.1 ≤ b.1)
  (loadSegments.zip loadSegments.tail).filterMap fun w =>
    if w.1.2 < w.2.1 then some ⟨w.1.2, w.2.1 - w.1.2, UserFlags.rwNoExec, .zero⟩ else none

/-- The deferred segments of `load_elf_from_path`: the segments' regions in
header order, then the gaps. -/
def deferredLazySegments (path : String) (inode : Nat) : List DeferredLazySegment :=
  (loadHeaders phdrs).map (deferSegment base phdrs path inode) ++ gapSegments base phdrs

end Segments

/-- The registration loop of `from_elf_path`. -/
def registerDeferred (regions : List LazyRegion) (segs : List DeferredLazySegment) :
    List LazyRegion :=
  segs.foldl (fun rs seg => (pushLazyRegionWithSource rs seg.startVa seg.size seg.pageFlags seg.source).1)
    regions

/-! ## Faults -/

/-- The bytes of the mapped pages of a process, by page address. -/
structure Image where
  pages : Nat → Option (Nat → UInt8)

namespace Image

variable (img : Image)

/-- A process with no page mapped. -/
def empty : Image := ⟨fun _ => none⟩

/-- The byte at `va`, if its page is mapped. -/
def readByte (va : Nat) : Option UInt8 :=
  (img.pages (pageAlignDown va)).map fun page => page (va - pageAlignDown va)

/-- The page at `va` mapped with the bytes `page`. -/
def mapPage (va : Nat) (page : Nat → UInt8) : Image := ⟨Function.update img.pages va (some page)⟩

end Image

/-- The frame the fault fills for the page at `curVa` from a file-backed
region: zero, with the segment's file bytes that fall on the page copied
in at `dst_off`. -/
def fillPage (file : List UInt8) (fileOffset filesz segmentVa curVa : Nat) : Nat → UInt8 :=
  let pgDataStart := max curVa segmentVa
  let pgDataEnd := min (curVa + pageSize) (segmentVa + filesz)
  let dstOff := pgDataStart - curVa
  let fileOff := fileOffset + (pgDataStart - segmentVa)
  let len := pgDataEnd - pgDataStart
  fun off =>
    if pgDataStart < pgDataEnd ∧ dstOff ≤ off ∧ off < dstOff + len then
      file.getD (fileOff + (off - dstOff)) 0
    else 0

/-- The read-ahead loop over the pages `curVas`: each one not yet mapped is
filled from the region's file bytes and mapped. -/
def readahead (file : List UInt8) (fileOffset filesz segmentVa : Nat) (img : Image)
    (curVas : List Nat) : Image :=
  curVas.foldl (fun img curVa =>
    match img.pages curVa with
    | some _ => img
    | none => img.mapPage curVa (fillPage file fileOffset filesz segmentVa curVa)) img

/-- A translation fault at `far` in a process with the lazy regions
`regions`, whose file-backed regions read `file`. Outside every region the
fault ends in `SIGSEGV`, as it does in the kernel identity window. -/
def lazyFault (c : MmuConfig) (file : List UInt8) (regions : List LazyRegion) (img : Image)
    (far : Nat) : Image :=
  match lazyRegionLookup regions far with
  | none => img
  | some (flags, source, regionStart, regionSize) =>
    let pageVa := pageAlignDown far
    if UserFlags.isNone flags then img.mapPage pageVa fun _ => 0
    else if kernelVaStart ≤ far ∧ far < c.kernelVaEnd then img
    else
      match source with
      | .file _ _ fileOffset filesz segmentVa =>
        let regionEnd := wrap (regionStart + regionSize)
        let raEnd := min (pageVa + readaheadPages * pageSize) regionEnd
        readahead file fileOffset filesz segmentVa img
          ((List.range ((raEnd - pageVa + pageSize - 1) / pageSize)).map (pageVa + · * pageSize))
      | .zero => img.mapPage pageVa fun _ => 0

/-- An access at `va`: a fault when its page is not mapped. -/
def touch (c : MmuConfig) (file : List UInt8) (regions : List LazyRegion) (img : Image)
    (va : Nat) : Image :=
  if (img.pages (pageAlignDown va)).isSome then img else lazyFault c file regions img va

/-! ### What a fault fills -/

section Fill

variable {file : List UInt8} {fileOffset filesz segmentVa curVa off : Nat}

/-- A byte of the page inside the segment's file bytes is the file's byte
at its offset. -/
theorem fillPage_of_mem (h₁ : segmentVa ≤ curVa + off) (h₂ : curVa + off < segmentVa + filesz)
    (h₃ : off < pageSize) :
    fillPage file fileOffset filesz segmentVa curVa off =
      file.getD (fileOffset + (curVa + off - segmentVa)) 0 := by
  unfold fillPage
  have hps : pageSize = 4096 := rfl
  rw [if_pos (by omega)]
  congr 1
  omega

/-- A byte of the page outside the segment's file bytes is 0, whatever the
file holds there. -/
theorem fillPage_of_not_mem (h : curVa + off < segmentVa ∨ segmentVa + filesz ≤ curVa + off) :
    fillPage file fileOffset filesz segmentVa curVa off = 0 := by
  unfold fillPage
  rw [if_neg (by omega)]

end Fill

/-! ## What the ELF file describes -/

/-- The byte the file gives `va`: inside the memory of a `PT_LOAD` segment,
its file byte while `va` lies in the segment's file bytes, and 0 after. -/
def elfImageByte (base : Nat) (phdrs : List ProgramHeader) (file : List UInt8) (va : Nat) :
    Option UInt8 :=
  match (loadHeaders phdrs).find? (fun ph =>
      base + ph.pVaddr ≤ va ∧ va < base + ph.pVaddr + ph.pMemsz) with
  | some ph =>
    some (if va < base + ph.pVaddr + ph.pFilesz then file.getD (ph.pOffset + (va - (base + ph.pVaddr))) 0
      else 0)
  | none => none

/-- Two segments share the page at `0x2000`: the first holds `[0x1000, 0x2800)`
and the second `[0x2800, 0x3000)`. The first access is at `0x2000`. The
lookup returns the region that starts last, the second segment's, and the
fault fills the page from it alone: the first segment's bytes on that page
read 0, where the file gives 7. -/
theorem boundary_page_loses_earlier_segment :
    (let phdrs : List ProgramHeader :=
       [⟨ptLoad, 4, 0x1000, 0x1000, 0x1800, 0x1800⟩, ⟨ptLoad, 6, 0x2800, 0x2800, 0x800, 0x800⟩]
     let file := List.replicate 0x3000 (7 : UInt8)
     let regions := registerDeferred [] (deferredLazySegments 0 phdrs "/bin/app" 2)
     let img := touch ⟨0x4000_0000, 0x1000_0000, 0⟩ file regions Image.empty 0x2000
     img.readByte 0x2000 = some 0 ∧ elfImageByte 0 phdrs file 0x2000 = some 7 ∧
       img.readByte 0x2800 = some 7) := by
  decide +kernel

end Akuma.Elf
