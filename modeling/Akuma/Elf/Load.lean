import Akuma.Syscall.Mmap

/-!
# Loading an ELF executable

`load_elf` of `elf/mod.rs`: the loop over the `PT_LOAD` program headers that
allocates, maps and fills the pages of each segment in a new user address
space, the `PT_PHDR` and `PT_INTERP` lookups, and the relocations of an
`ET_EXEC` file.

Parsing the file is the work of the `elf` crate: the model takes what the
parser returns (`none` when `minimal_parse` fails), namely the header
fields, the program headers (`none` when `segments()` finds none) and the
`RELA` entries of the relocation sections with their symbol values resolved.
The bytes copied into a page are recorded as the copy the kernel makes
(destination, source offset in the file, length); their contents are not
modelled. Loading the interpreter a `PT_INTERP` names is left to the caller
of the model, which returns the resolved path. `usize` arithmetic wraps
modulo `2 ^ 64`.
-/

namespace Akuma.Elf

open Akuma.Mmu Akuma.Syscall

/-! ## Constants and parser output -/

/-- `PT_LOAD`. -/
def ptLoad : Nat := 1
/-- `PT_INTERP`. -/
def ptInterp : Nat := 3
/-- `PT_PHDR`. -/
def ptPhdr : Nat := 6
/-- `PF_X`. -/
def pfX : Nat := 1
/-- `EM_AARCH64`. -/
def emAarch64 : Nat := 183
/-- `ET_EXEC`. -/
def etExec : Nat := 2
/-- `ET_DYN`. -/
def etDyn : Nat := 3
/-- `PIE_BASE` of `load_elf`. -/
def pieBase : Nat := 0x1000_0000
/-- `R_AARCH64_ABS64`. -/
def rAarch64Abs64 : Nat := 257
/-- `R_AARCH64_GLOB_DAT`. -/
def rAarch64GlobDat : Nat := 1025
/-- `R_AARCH64_JUMP_SLOT`. -/
def rAarch64JumpSlot : Nat := 1026
/-- `R_AARCH64_RELATIVE`. -/
def rAarch64Relative : Nat := 1027

/-- The fields of a program header that `load_elf` reads. -/
structure ProgramHeader where
  pType : Nat
  pFlags : Nat
  pOffset : Nat
  pVaddr : Nat
  pFilesz : Nat
  pMemsz : Nat
  deriving DecidableEq, Repr

/-- A relocation entry with the value of its symbol (`0` when it has none). -/
structure Rela where
  rType : Nat
  rOffset : Nat
  rAddend : Nat
  symValue : Nat
  deriving DecidableEq, Repr

/-- What the `elf` crate makes of the file. -/
structure ElfFile where
  eType : Nat
  eMachine : Nat
  eEntry : Nat
  ePhoff : Nat
  ePhnum : Nat
  ePhentsize : Nat
  segments : Option (List ProgramHeader)
  relas : List Rela

/-- `ElfError`. -/
inductive ElfError where
  | invalidFormat (msg : String)
  | invalidMagic (magic : List UInt8)
  | wrongArchitecture
  | notExecutable
  | addressSpaceFailed
  | mappingFailed (msg : String)
  deriving DecidableEq, Repr

/-! ## The segment loop -/

/-- The state the segment loop carries: the address space being built, the
pages already mapped (`mapped_pages`, page to frame), the copies made from
the file, and `brk` and `phdr_addr`. -/
structure LoadState where
  space : UserAddressSpace
  machine : Machine
  mappedPages : List (Nat × Nat)
  copies : List (Nat × Nat × Nat)
  brk : Nat
  phdrAddr : Nat

/-- The frame of `pageVa`: the one it already has, or a new one from
`alloc_and_map`. -/
def frameFor (pageVa pageFlags : Nat) (st : LoadState) : Except ElfError (Nat × LoadState) :=
  match st.mappedPages.lookup pageVa with
  | some pa => .ok (pa, st)
  | none =>
    match st.space.allocAndMap st.machine pageVa pageFlags with
    | .ok (frame, space, machine) =>
      .ok (frame, { st with space := space, machine := machine,
                            mappedPages := st.mappedPages ++ [(pageVa, frame)] })
    | .error e => .error (.mappingFailed e)

/-- One page of a segment: map it, then copy the part of the file that falls
on it, if the copy's end is inside the file. -/
def loadPage (dataLen vaddr filesz offset pageFlags pageVa : Nat) (st : LoadState) :
    Except ElfError LoadState := do
  let (frameAddr, st) ← frameFor pageVa pageFlags st
  let pageStartInSegment := if pageVa ≥ vaddr then pageVa - vaddr else 0
  if pageStartInSegment < filesz then
    let copyStart := if pageVa < vaddr then vaddr - pageVa else 0
    let fileOffset := wrap (offset + pageStartInSegment)
    let copyLen := min (pageSize - copyStart) (filesz - pageStartInSegment)
    if copyLen > 0 ∧ wrap (fileOffset + copyLen) ≤ dataLen then
      pure { st with copies := st.copies ++ [(frameAddr + copyStart, fileOffset, copyLen)] }
    else pure st
  else pure st

/-- `for i in 0..n`, page `startPage + i * PAGE_SIZE`, from `i`. -/
def loadPages (dataLen vaddr filesz offset pageFlags startPage : Nat) :
    Nat → Nat → LoadState → Except ElfError LoadState
  | _, 0, st => .ok st
  | i, n + 1, st => do
    let st ← loadPage dataLen vaddr filesz offset pageFlags (wrap (startPage + i * pageSize)) st
    loadPages dataLen vaddr filesz offset pageFlags startPage (i + 1) n st

/-- The body of the `PT_LOAD` loop for one program header. -/
def loadSegment (dataLen base ePhoff : Nat) (st : LoadState) (ph : ProgramHeader) :
    Except ElfError LoadState :=
  if ph.pType ≠ ptLoad then .ok st else do
  let vaddr := wrap (base + ph.pVaddr)
  let st := if st.phdrAddr = 0 ∧ ph.pOffset = 0 then { st with phdrAddr := wrap (vaddr + ePhoff) }
    else st
  let pageFlags := if ph.pFlags &&& pfX ≠ 0 then UserFlags.rx else UserFlags.rwNoExec
  let startPage := pageAlignDown vaddr
  let endPage := pageAlignDown (wrap (vaddr + ph.pMemsz + pageSize - 1))
  let numPages := wrap (endPage + 2 ^ 64 - startPage) / pageSize
  let st ← loadPages dataLen vaddr ph.pFilesz ph.pOffset pageFlags startPage 0 numPages st
  let segmentEnd := wrap (vaddr + ph.pMemsz)
  pure (if segmentEnd > st.brk then { st with brk := segmentEnd } else st)

/-- The `PT_LOAD` loop over all program headers, in order. -/
def loadSegments (dataLen base ePhoff : Nat) :
    List ProgramHeader → LoadState → Except ElfError LoadState
  | [], st => .ok st
  | ph :: phs, st => do
    let st ← loadSegment dataLen base ePhoff st ph
    loadSegments dataLen base ePhoff phs st

/-! ## Relocations and the interpreter path -/

/-- One relocation of an `ET_EXEC` file: a word store into the frame of its
page, if that page was loaded. -/
def applyRela (mappedPages : List (Nat × Nat)) (m : Machine) (r : Rela) : Machine :=
  match mappedPages.lookup (pageAlignDown r.rOffset) with
  | none => m
  | some pa =>
    let ptr := pa + (r.rOffset &&& (pageSize - 1))
    if r.rType = rAarch64Relative then m.write ptr r.rAddend
    else if r.rType = rAarch64Abs64 ∨ r.rType = rAarch64GlobDat ∨ r.rType = rAarch64JumpSlot then
      m.write ptr (wrap (r.symValue + r.rAddend))
    else m

/-- The path a `PT_INTERP` header names: its bytes without a final NUL, if
they lie in the file and are UTF-8. The last such header wins. -/
def interpPath (data : List UInt8) : List ProgramHeader → Option String
  | [] => none
  | ph :: phs =>
    let later := interpPath data phs
    if later.isSome then later
    else if ph.pType = ptInterp ∧ ph.pFilesz > 1 ∧ wrap (ph.pOffset + ph.pFilesz) ≤ data.length then
      let raw := (data.take (ph.pOffset + ph.pFilesz)).drop ph.pOffset
      let pathBytes := if raw.getLast? = some 0 then raw.dropLast else raw
      String.fromUTF8? pathBytes.toByteArray
    else none

/-- The resolved interpreter path: `interp_prefix` joined to it. -/
def resolveInterp (prefix? : Option String) (ipath : String) : String :=
  match prefix? with
  | some p => if !p.endsWith "/" ∧ !ipath.startsWith "/" then p ++ "/" ++ ipath else p ++ ipath
  | none => ipath

/-! ## `load_elf` -/

/-- `LoadedElf`, with the interpreter left to load and the copies made. -/
structure LoadedElf where
  entryPoint : Nat
  space : UserAddressSpace
  machine : Machine
  brk : Nat
  phdrAddr : Nat
  phnum : Nat
  phent : Nat
  interp : Option String
  copies : List (Nat × Nat × Nat)

/-- `load_elf` on the file `data` that the parser read as `parsed`, with
the physical memory `m` and the answer `asid` of the ASID allocator. -/
def loadElf (c : MmuConfig) (asid : Option Nat) (m : Machine) (data : List UInt8)
    (parsed : Option ElfFile) (interpPrefix : Option String) : Except ElfError LoadedElf := do
  let some elf := parsed
    | .error (.invalidMagic (if data.length ≥ 4 then data.take 4 else [0, 0, 0, 0]))
  if elf.eMachine ≠ emAarch64 then .error .wrongArchitecture
  let isPie := elf.eType = etDyn
  if elf.eType ≠ etExec ∧ !isPie then .error .notExecutable
  let base := if isPie then pieBase else 0
  let entryPoint := wrap (base + elf.eEntry)
  let some (space, m) := UserAddressSpace.new c asid m | .error .addressSpaceFailed
  let some segments := elf.segments | .error (.invalidFormat "No program headers")
  let interp := interpPath data segments
  let phdrAddr := match segments.find? (·.pType = ptPhdr) with
    | some ph => wrap (base + ph.pVaddr)
    | none => 0
  let st ← loadSegments data.length base elf.ePhoff segments ⟨space, m, [], [], 0, phdrAddr⟩
  let m := if isPie then st.machine else elf.relas.foldl (applyRela st.mappedPages) st.machine
  pure ⟨entryPoint, st.space, m, st.brk, st.phdrAddr, elf.ePhnum, elf.ePhentsize,
    interp.map (resolveInterp interpPrefix), st.copies⟩

/-! ## A segment in the kernel window

Neither the loader nor `map_page` compares a segment's addresses with the
kernel identity window. A `PT_LOAD` at `0x4000_0000` gets a user page
there: `get_or_create_table` splits the kernel's 2 MiB block into a table
and the page descriptor of a fresh frame, readable at EL0, replaces the
identity mapping of the first page of kernel RAM. -/

theorem loadElf_maps_kernel_window :
    ∃ l, (loadElf ⟨0x4000_0000, 0x2000_0000, 0⟩ (some 1)
        ⟨fun _ => 0, (List.range 16).map (0x4100_0000 + 0x1000 * ·)⟩ (List.replicate 64 0)
        (some ⟨etExec, emAarch64, 0x4000_0000, 64, 1, 56,
          some [⟨ptLoad, 4, 0x1000, 0x4000_0000, 0, 0x1000⟩], []⟩) none).toOption = some l ∧
      kernelVaStart ≤ 0x4000_0000 ∧
      0x4000_0000 < (⟨0x4000_0000, 0x2000_0000, 0⟩ : MmuConfig).kernelVaEnd ∧
      (walk l.machine l.space.l0Frame 0x4000_0000).map Leaf.entry =
        some (userPageEntry 0x4100_4000 UserFlags.rwNoExec) ∧
      el0Readable l.machine l.space.l0Frame 0x4000_0000 = true :=
  ⟨_, (Option.some_get (h := by decide +kernel)).symm, by decide +kernel⟩

end Akuma.Elf
