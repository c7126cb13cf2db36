import Akuma.Pmm.Global
import Akuma.Lib.OrdMap

/-!
# Copy-on-write fork

The frame bookkeeping of a CoW `fork_process` (`process/mod.rs`), of the
CoW branch of the data-abort handler (`exceptions.rs`) and of process exit,
over the global allocator of `pmm.rs` with its `COW_REFCOUNTS` table.

Ownership of a user frame is split three ways: each address space counts
the references it holds in `user_frames`, `COW_REFCOUNTS` counts the spaces
that share the frame (an absent frame has one owner; the first share
inserts 2), and the bitmap says whether the frame is allocated at all.
Exit frees every tracked frame through `free_page`, which frees only when
`cow_ref_dec` reports the last reference. The write fault drops the
faulting space's reference and one share, and frees nothing, whatever
`cow_ref_dec` reports.

An address space is seen through its L3 page descriptors, by page address:
the leaves that `collect_mapped_pages_with_flags`, `demote_range_to_ro` and
`translate_user_va` read (the walk itself is `Akuma.Mmu.walk`). The table
frames and the L0 frame are never shared and never tracked as user
frames; their allocation in `UserAddressSpace::new` and `map_page` and
their release in `Drop` are left out, so `map_page` fails here only on an
unaligned address.
-/

namespace Akuma.Process

open Akuma.Mmu Akuma.Pmm

/-- A valid L3 page descriptor: its frame and the user flags `map_page`
installed with it (its other attribute bits are the same in every user
page). -/
structure Pte where
  pa : Nat
  flags : Nat
  deriving DecidableEq, Repr

/-- The access-permission field `AP[2:1]` of a descriptor
(`AP_RO_ALL | AP_RW_ALL`). -/
def apMask : Nat := Flags.apRoAll ||| Flags.apRwAll

/-- Whether a program at EL0 may write through the descriptor:
`AP[2:1] = 0b01` (`AP_RW_ALL`), as `Akuma.Mmu.el0Writable` reads it. -/
def Pte.el0Writable (e : Pte) : Bool := (e.flags >>> 6) &&& 3 = 1

/-- `PROCESS_INFO_ADDR`. -/
def processInfoAddr : Nat := 0x1000

/-- `fork_page_count_for_len`: the pages that hold `len` bytes; `None` when
`len + PAGE_SIZE - 1` overflows `usize`. -/
def forkPageCountForLen (len : Nat) : Option Nat :=
  if len = 0 then some 0
  else if len + (pageSize - 1) < 2 ^ 64 then some ((len + (pageSize - 1)) / pageSize)
  else none

/-- The end of `[vaStart, vaStart + pages * PAGE_SIZE)` as the two page-table
walkers compute it (`saturating_mul`, then `checked_add`); `none` when it
overflows `usize`. -/
def rangeEnd (vaStart pages : Nat) : Option Nat :=
  let vaEnd := vaStart + min (pages * pageSize) (2 ^ 64 - 1)
  if 2 ^ 64 ≤ vaEnd then none else some vaEnd

/-- A user address space as the CoW paths see it: its page descriptors by
page address, and `user_frames`, the references it holds to each frame. -/
structure CowSpace where
  pages : OrdMap Nat Pte
  userFrames : OrdMap Nat Nat

namespace CowSpace

variable (s : CowSpace)

/-- A space with no user pages. -/
def empty : CowSpace := ⟨.empty, .empty⟩

/-- `map_page`: the descriptor of `pa` for `va`, over whatever was there. -/
def mapPage (va pa userFlags : Nat) : Option CowSpace :=
  if va &&& (pageSize - 1) ≠ 0 ∨ pa &&& (pageSize - 1) ≠ 0 then none
  else some { s with pages := s.pages.insert va ⟨pa, userFlags⟩ }

/-- `track_user_frame`. -/
def trackUserFrame (frame : Nat) : CowSpace :=
  { s with userFrames := s.userFrames.insert frame ((s.userFrames.get? frame).getD 0 + 1) }

/-- `remove_user_frame`: drop one reference to `frame`; `true` when that was
the last one. -/
def removeUserFrame (frame : Nat) : Bool × CowSpace :=
  match s.userFrames.get? frame with
  | some count =>
    if count - 1 = 0 then (true, { s with userFrames := s.userFrames.erase frame })
    else (false, { s with userFrames := s.userFrames.insert frame (count - 1) })
  | none => (false, s)

/-- `translate_user_va` of a page address: the frame of its descriptor. -/
def translateUserVa (va : Nat) : Option Nat := (s.pages.get? va).map (·.pa)

/-- `collect_mapped_pages_with_flags`: the mapped pages from the page of
`vaStart` to the end of the range, in ascending order, with their frames
and their `AP`, `UXN` and `PXN` bits. -/
def collectMappedPagesWithFlags (vaStart pages : Nat) : List (Nat × Nat × Nat) :=
  if pages = 0 then [] else
  match rangeEnd vaStart pages with
  | none => []
  | some vaEnd =>
    (s.pages.entries.filter fun e => pageAlignDown vaStart ≤ e.1 ∧ e.1 < vaEnd).map
      fun e => (e.1, e.2.pa, e.2.flags &&& (Flags.apRoAll ||| Flags.uxn ||| Flags.pxn))

/-- `demote_range_to_ro`: each page of the range whose `AP` is `AP_RW_ALL`
gets `AP_RO_ALL`; `!AP_MASK` on a `u64` is `2 ^ 64 - 1 - AP_MASK`. -/
def demoteRangeToRo (vaStart pages : Nat) : CowSpace :=
  if pages = 0 then s else
  match rangeEnd vaStart pages with
  | none => s
  | some vaEnd =>
    { s with
      pages := s.pages.mapVals fun va e =>
        if pageAlignDown vaStart ≤ va ∧ va < vaEnd ∧ e.flags &&& apMask = Flags.apRwAll then
          { e with flags := (e.flags &&& (2 ^ 64 - 1 - apMask)) ||| Flags.apRoAll }
        else e }

/-- The user-frame loop of `Drop`: `free_page` of each tracked frame once,
in ascending order, whatever its count. -/
def release (pmm : PmmState) : PmmState := s.userFrames.keys.foldl PmmState.freePage pmm

end CowSpace

/-! ## Sharing at fork -/

/-- The loop of `cow_share_range` over the pages it collected: each gets one
more CoW reference and is mapped into the child read-only, with its `UXN`
and `PXN`, and tracked there. A `map_page` error stops the loop with what
was done so far. -/
def shareMapped (acc : CowSpace × PmmState) (page : Nat × Nat × Nat) :
    Except (CowSpace × PmmState) (CowSpace × PmmState) :=
  let (va, pa, pteFlags) := page
  let pmm := acc.2.cowRefInc pa
  let childFlags := (pteFlags &&& (2 ^ 64 - 1 - Flags.apRoAll)) ||| Flags.apRoAll
  match acc.1.mapPage va pa childFlags with
  | none => .error (acc.1, pmm)
  | some child => .ok (child.trackUserFrame pa, pmm)

/-- `cow_share_range` of `[vaStart, vaStart + len)` of the parent. -/
def cowShareRange (parent : CowSpace) (acc : CowSpace × PmmState) (range : Nat × Nat) :
    Except (CowSpace × PmmState) (CowSpace × PmmState) :=
  match forkPageCountForLen range.2 with
  | none => .error acc
  | some pages => (parent.collectMappedPagesWithFlags range.1 pages).foldlM shareMapped acc

/-- The demotion of the parent after a successful share: each range loses
write access over `fork_page_count_for_len(len).unwrap_or(0)` pages. -/
def demoteRanges (parent : CowSpace) (ranges : List (Nat × Nat)) : CowSpace :=
  ranges.foldl (fun s r => s.demoteRangeToRo r.1 ((forkPageCountForLen r.2).getD 0)) parent

/-! ## The system -/

/-- The processes by pid (an exited one is `none`) and the global allocator. -/
structure CowSystem where
  procs : List (Option CowSpace)
  pmm : PmmState

namespace CowSystem

variable (sys : CowSystem)

/-- The address space of a live process. -/
def space? (p : Nat) : Option CowSpace := sys.procs[p]?.bind id

/-- `alloc_and_map` in process `p`: a fresh frame, tracked, then mapped. -/
def allocAndMap (p va userFlags : Nat) : CowSystem :=
  match sys.space? p with
  | none => sys
  | some s =>
    match sys.pmm.allocPageZeroed with
    | (none, pmm) => { sys with pmm }
    | (some frame, pmm) =>
      let s := s.trackUserFrame frame
      -- an unaligned `va` fails after the frame is tracked
      { procs := sys.procs.set p (some ((s.mapPage va frame userFlags).getD s)), pmm }

/-- The CoW steps of `fork_process` from process `p`, sharing `ranges` in the
order the source visits them (stack, code and brk, interpreter, mmap,
sibling and lazy ranges): the child gets its process-info page and the
shared pages and takes the next pid, and the parent's ranges are demoted.
When a share fails the child's address space is dropped. -/
def fork (p : Nat) (ranges : List (Nat × Nat)) : CowSystem :=
  match sys.space? p with
  | none => sys
  | some parent =>
    match sys.pmm.allocPageZeroed with
    | (none, pmm) => { sys with pmm }
    | (some info, pmm) =>
      match CowSpace.empty.mapPage processInfoAddr info (UserFlags.ro ||| Flags.uxn ||| Flags.pxn) with
      -- not yet tracked: the frame goes with the dropped space
      | none => { sys with pmm }
      | some child =>
        match ranges.foldlM (cowShareRange parent) (child.trackUserFrame info, pmm) with
        | .ok (child, pmm) =>
          { procs := sys.procs.set p (some (demoteRanges parent ranges)) ++ [some child], pmm }
        | .error (child, pmm) => { sys with pmm := child.release pmm }

/-- The CoW branch of the data-abort handler, for a write permission fault
of process `p` at `far`: when the frame mapped there is CoW-shared, a fresh
frame, a copy of it, is mapped read-write in its place; the space drops
its reference to the old frame and `cow_ref_dec` drops one share, and
neither result is looked at. Otherwise the handler goes on to the
lazy-region upgrade or to `SIGSEGV`, which leave the frames as they are. -/
def cowWriteFault (p far : Nat) : CowSystem :=
  match sys.space? p with
  | none => sys
  | some owner =>
    let pageVa := pageAlignDown far
    match owner.translateUserVa pageVa with
    | none => sys
    | some oldPaWithOffset =>
      let oldPa := pageAlignDown oldPaWithOffset
      if sys.pmm.cowRefGet oldPa > 0 then
        match sys.pmm.allocPageZeroed with
        | (none, pmm) => { sys with pmm }
        | (some newFrame, pmm) =>
          let owner := (owner.mapPage pageVa newFrame UserFlags.rwNoExec).getD owner
          let owner := owner.trackUserFrame newFrame
          let owner := (owner.removeUserFrame oldPa).2
          { procs := sys.procs.set p (some owner), pmm := (pmm.cowRefDec oldPa).2 }
      else sys

/-- A write by process `p` at `va`: a writable page takes it; a read-only
page raises a permission fault. An unmapped page raises a translation
fault, which demand paging serves; that is not part of this model. -/
def write (p va : Nat) : CowSystem :=
  match sys.space? p with
  | none => sys
  | some s =>
    match s.pages.get? (pageAlignDown va) with
    | some e => if e.el0Writable then sys else sys.cowWriteFault p va
    | none => sys

/-- Exit of process `p`: its address space is dropped. -/
def exit (p : Nat) : CowSystem :=
  match sys.space? p with
  | none => sys
  | some s => { procs := sys.procs.set p none, pmm := s.release sys.pmm }

/-! ### What each path frees -/

variable {sys}

end CowSystem

/-- The events of the CoW system. -/
inductive CowEvent where
  | allocAndMap (p va userFlags : Nat)
  | fork (p : Nat) (ranges : List (Nat × Nat))
  | write (p va : Nat)
  | exit (p : Nat)
  deriving DecidableEq, Repr

/-- The system after one event. -/
def CowEvent.apply (sys : CowSystem) : CowEvent → CowSystem
  | .allocAndMap p va userFlags => sys.allocAndMap p va userFlags
  | .fork p ranges => sys.fork p ranges
  | .write p va => sys.write p va
  | .exit p => sys.exit p

/-- The system after a sequence of events. -/
def runCow (sys : CowSystem) (events : List CowEvent) : CowSystem := events.foldl CowEvent.apply sys

/-- A parent maps a page and forks; the child exits, which takes the count to
1 but frees nothing; the parent's write then copies the page, and the
fault drops the last share without freeing the frame. After the parent
exits too, the frame is allocated in the bitmap, absent from
`COW_REFCOUNTS` and held by no process: it is lost. -/
theorem shared_frame_lost_after_last_fault :
    (let s := runCow ⟨[some .empty], PmmState.boot.init 0x4000_0000 0x10000 0x4000_0000⟩
        [.allocAndMap 0 0x40_0000 UserFlags.rw, .fork 0 [(0x40_0000, 0x1000)], .exit 1,
          .write 0 0x40_0000, .exit 0]
     s.procs.all Option.isNone ∧ s.pmm.pmm.isFree 0 = false ∧
       s.pmm.cowRefcounts 0x4000_0000 = none ∧ s.pmm.allocatedPages = 1) := by
  decide +kernel

end Akuma.Process
