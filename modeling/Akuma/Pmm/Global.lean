import Akuma.Pmm.Allocations

/-!
# The global page allocator

The public functions of `pmm.rs` around the one `BitmapAllocator` behind
`PMM`: the counters `TOTAL_PAGES`, `ALLOCATED_PAGES` and
`DOUBLE_FREE_COUNT` that each wrapper keeps beside the bitmap, and the
copy-on-write reference counts of `COW_REFCOUNTS` that `free_page`
consults first.

The atomic counters wrap modulo `2 ^ 64` (`fetch_add` and `fetch_sub`).
Zeroing and cache maintenance of new frames write physical memory, which
is not part of this state. `reclaim_to_pmm`, which the allocation wrappers
call when the bitmap runs out, gives heap spans back to the bitmap; the
heap is not modelled, and the model reclaims nothing. Frame tracking is
off (`DEBUG_FRAME_TRACKING` is `false`), so `track_frame` and
`untrack_frame` do nothing.
-/

namespace Akuma.Pmm

open Akuma.Mmu (pageSize)

/-- `usize` addition of an atomic counter, modulo `2 ^ 64`. -/
def wrapAdd (x c : Nat) : Nat := (x + c) % 2 ^ 64

/-- `usize` subtraction of an atomic counter, modulo `2 ^ 64`. -/
def wrapSub (x c : Nat) : Nat := (x + (2 ^ 64 - c % 2 ^ 64)) % 2 ^ 64

/-- The global state of `pmm.rs`. `cowRefcounts` is `COW_REFCOUNTS`, an
address absent from the table mapping to `none`. -/
structure PmmState where
  pmm : BitmapAllocator
  totalPages : Nat
  allocatedPages : Nat
  doubleFreeCount : Nat
  cowRefcounts : Nat → Option Nat

namespace PmmState

variable (s : PmmState)

/-- The state before `init`: `BitmapAllocator::new()`, the counters at 0 and
an empty CoW table. -/
def boot : PmmState := ⟨BitmapAllocator.new, 0, 0, 0, fun _ => none⟩

/-- `pmm::init`. -/
def init (ramBase ramSize kernelEnd : Nat) : PmmState :=
  let pmm := BitmapAllocator.init ramBase ramSize kernelEnd
  { s with
    pmm
    totalPages := pmm.totalPages
    allocatedPages := wrapSub pmm.totalPages pmm.freePages }

/-- `reserve_range` (multikernel builds): the free pages of
`[base, base + len)` below `total_pages` are marked used. -/
def reserveRange (base len : Nat) : PmmState :=
  if base < s.pmm.baseAddr then s else
  let start := (base - s.pmm.baseAddr) / pageSize
  let pages := len / pageSize
  -- the loop breaks at `total_pages`
  let (pmm, reserved) := ((List.range' start pages).filter (· < s.pmm.totalPages)).foldl
    (fun (acc : BitmapAllocator × Nat) i =>
      if acc.1.isFree i then (acc.1.markUsed i, acc.2 + 1) else acc) (s.pmm, 0)
  { s with
    pmm := { pmm with freePages := pmm.freePages - reserved }
    allocatedPages := wrapAdd s.allocatedPages reserved }

/-- `alloc_page_once`. -/
def allocPageOnce : Option Nat × PmmState :=
  match s.pmm.allocPage with
  | (some frame, pmm) => (some frame, { s with pmm, allocatedPages := wrapAdd s.allocatedPages 1 })
  | (none, pmm) => (none, { s with pmm })

/-- `alloc_page`: `alloc_page_once`, retried after a reclaim that gives
nothing back. -/
def allocPage : Option Nat × PmmState := s.allocPageOnce

/-- `alloc_page_zeroed`. -/
def allocPageZeroed : Option Nat × PmmState := s.allocPage

/-- `cow_ref_inc`: a new address enters the table at 2 (the first share);
the `u16` count saturates. -/
def cowRefInc (pa : Nat) : PmmState :=
  let count := (s.cowRefcounts pa).getD 1
  { s with cowRefcounts := Function.update s.cowRefcounts pa (some (min (count + 1) 65535)) }

/-- `cow_ref_dec`: `true` when the caller holds the last reference (the
count reached 0, or the address was not shared). -/
def cowRefDec (pa : Nat) : Bool × PmmState :=
  match s.cowRefcounts pa with
  | some count =>
    if count - 1 = 0 then (true, { s with cowRefcounts := Function.update s.cowRefcounts pa none })
    else (false, { s with cowRefcounts := Function.update s.cowRefcounts pa (some (count - 1)) })
  | none => (true, s)

/-- `cow_ref_get`. -/
def cowRefGet (pa : Nat) : Nat := (s.cowRefcounts pa).getD 0

/-- `free_page`: a CoW-shared frame only loses a reference; otherwise the
bitmap's outcome decides the counters. -/
def freePage (frame : Nat) : PmmState :=
  let (last, s) := s.cowRefDec frame
  if !last then s else
  match s.pmm.freePage frame with
  | (.freed, pmm) => { s with pmm, allocatedPages := wrapSub s.allocatedPages 1 }
  | (.doubleFree, pmm) => { s with pmm, doubleFreeCount := wrapAdd s.doubleFreeCount 1 }
  | (.outOfRange, pmm) => { s with pmm }

/-- `alloc_pages_contiguous_zeroed`. -/
def allocPagesContiguousZeroed (count : Nat) : Option Nat × PmmState :=
  match s.pmm.allocPagesContiguous count with
  | (some frame, pmm) => (some frame, { s with pmm, allocatedPages := wrapAdd s.allocatedPages count })
  | (none, pmm) => (none, { s with pmm })

/-- `free_pages_contiguous`: the counter drops by `count`, whatever the
bitmap frees. -/
def freePagesContiguous (frame count : Nat) : PmmState :=
  { s with
    pmm := s.pmm.freePagesContiguous frame count
    allocatedPages := wrapSub s.allocatedPages count }

/-- `alloc_pages_zeroed`. -/
def allocPagesZeroed (count : Nat) : Option (List Nat) × PmmState :=
  match s.pmm.allocPages count with
  | (some frames, pmm) => (some frames, { s with pmm, allocatedPages := wrapAdd s.allocatedPages count })
  | (none, pmm) => (none, { s with pmm })

/-- `stats`: total, allocated and free pages. -/
def stats : Nat × Nat × Nat :=
  (s.totalPages, s.allocatedPages, s.totalPages - s.allocatedPages)

/-- `free_count`. -/
def freeCount : Nat := s.stats.1 - s.stats.2.1

/-! ## `ALLOCATED_PAGES` against the bitmap -/

/-- `ALLOCATED_PAGES` is exact: it is `total_pages` less the allocator's free
count, and `TOTAL_PAGES` is `total_pages`, over an allocator with its
invariant. -/
structure Exact : Prop where
  inv : s.pmm.Inv
  total_lt : s.pmm.totalPages < 2 ^ 64
  totalPages_eq : s.totalPages = s.pmm.totalPages
  allocatedPages_eq : s.allocatedPages = s.pmm.totalPages - s.pmm.freePages

section Exactness

open BitmapAllocator

variable {s} {pmm : BitmapAllocator}

/-- Between two allocators with the invariant, the free count is fixed by
the free pages: taking the distinct free pages `l` takes `l.length` off. -/
theorem freePages_add_of_isFree {a a' : BitmapAllocator} (h : a.Inv) (h' : a'.Inv)
    (htotal : a'.totalPages = a.totalPages) {l : List Nat} (hl : l.Nodup)
    (hfree : ∀ p ∈ l, a.isFree p = true)
    (hbits : ∀ j, a'.isFree j = (a.isFree j && decide (j ∉ l))) :
    a'.freePages + l.length = a.freePages := by
  have hcount : WordBitmap.count a'.bitmap a.totalPages =
      WordBitmap.count (l.foldl WordBitmap.clear a.bitmap) a.totalPages :=
    WordBitmap.count_congr fun i _ => by rw [WordBitmap.test_foldl_clear]; exact hbits i
  rw [h'.freePages_eq, h.freePages_eq, htotal, hcount]
  exact WordBitmap.count_foldl_clear hl fun p hp => ⟨h.lt_of_isFree (hfree p hp), hfree p hp⟩

/-- A call that takes `n` pages off the free count and adds `n` to the
counter keeps the counter exact. -/
theorem Exact.take (h : s.Exact) (hinv : pmm.Inv) (htot : pmm.totalPages = s.pmm.totalPages)
    {n : Nat} (hf : pmm.freePages + n = s.pmm.freePages) :
    ({ s with pmm, allocatedPages := wrapAdd s.allocatedPages n } : PmmState).Exact := by
  refine ⟨hinv, htot ▸ h.total_lt, htot ▸ h.totalPages_eq, ?_⟩
  have hle := h.inv.freePages_le
  have hlt := h.total_lt
  dsimp only
  rw [wrapAdd, h.allocatedPages_eq, htot, Nat.mod_eq_of_lt (by omega)]
  omega

/-- A call that leaves the allocator's free count and the counter as they
were keeps the counter exact. -/
theorem Exact.keep (h : s.Exact) (hinv : pmm.Inv) (htot : pmm.totalPages = s.pmm.totalPages)
    (hf : pmm.freePages = s.pmm.freePages) : ({ s with pmm } : PmmState).Exact :=
  ⟨hinv, htot ▸ h.total_lt, htot ▸ h.totalPages_eq, by rw [h.allocatedPages_eq, htot, hf]⟩

/-- Freeing one used page and taking one off the counter keeps it exact. -/
theorem Exact.release (h : s.Exact) (hinv : pmm.Inv) (htot : pmm.totalPages = s.pmm.totalPages)
    (hf : pmm.freePages = s.pmm.freePages + 1) :
    ({ s with pmm, allocatedPages := wrapSub s.allocatedPages 1 } : PmmState).Exact := by
  refine ⟨hinv, htot ▸ h.total_lt, htot ▸ h.totalPages_eq, ?_⟩
  have hle := hinv.freePages_le
  have hlt := h.total_lt
  dsimp only
  rw [wrapSub, h.allocatedPages_eq, ← htot, Nat.mod_eq_of_lt (show 1 < 2 ^ 64 by decide)]
  rw [show pmm.totalPages - s.pmm.freePages + (2 ^ 64 - 1) = (pmm.totalPages - pmm.freePages) + 2 ^ 64
    by omega, Nat.add_mod_right, Nat.mod_eq_of_lt (by omega)]

theorem Exact.init {ramBase ramSize kernelEnd : Nat} (hsize : ramSize < 2 ^ 64)
    (hkernel : kernelEnd ≤ ramBase + ramSize / pageSize * pageSize) :
    (s.init ramBase ramSize kernelEnd).Exact := by
  have hinv := BitmapAllocator.init_inv hsize hkernel
  have hle := hinv.freePages_le
  have hlt : (BitmapAllocator.init ramBase ramSize kernelEnd).totalPages < 2 ^ 64 := by
    rw [totalPages_init]
    exact lt_of_le_of_lt (Nat.div_le_self _ _) hsize
  refine ⟨hinv, hlt, rfl, ?_⟩
  dsimp only [PmmState.init]
  -- `total_pages - free_pages` in `usize`, with no wrap
  rw [wrapSub, Nat.mod_eq_of_lt (lt_of_le_of_lt hle hlt),
    show (BitmapAllocator.init ramBase ramSize kernelEnd).totalPages +
      (2 ^ 64 - (BitmapAllocator.init ramBase ramSize kernelEnd).freePages) =
      ((BitmapAllocator.init ramBase ramSize kernelEnd).totalPages -
        (BitmapAllocator.init ramBase ramSize kernelEnd).freePages) + 2 ^ 64 by omega,
    Nat.add_mod_right, Nat.mod_eq_of_lt (by omega)]

theorem Exact.allocPage (h : s.Exact) : s.allocPage.2.Exact := by
  have hinv := h.inv.allocPage
  have htot := s.pmm.allocPage_totalPages
  unfold PmmState.allocPage allocPageOnce
  split
  · rename_i f a' hs
    rw [hs] at hinv htot
    obtain ⟨i, -, hfree, -, hbits⟩ := BitmapAllocator.allocPage_some hs
    refine h.take hinv htot (freePages_add_of_isFree h.inv hinv htot (List.nodup_singleton i)
      (by simpa using hfree) (fun j => by rw [hbits j]; simp))
  · rename_i a' hs
    rw [(allocPage_none h.inv hs).1]
    exact h.keep h.inv rfl rfl

theorem Exact.allocPagesZeroed (h : s.Exact) (count : Nat) : (s.allocPagesZeroed count).2.Exact := by
  have hinv := h.inv.allocPages count
  have htot := allocPages_totalPages h.inv count
  unfold PmmState.allocPagesZeroed
  split
  · rename_i frames a' hs
    rw [hs] at hinv htot
    obtain ⟨pages, -, hlen, hnodup, hfree, hbits⟩ := allocPages_some h.inv hs
    have hf := freePages_add_of_isFree h.inv hinv htot hnodup (fun p hp => (hfree p hp).2) hbits
    rw [hlen] at hf
    exact h.take hinv htot hf
  · rename_i a' hs
    rw [allocPages_none h.inv hs]
    exact h.keep h.inv rfl rfl

theorem Exact.allocPagesContiguousZeroed (h : s.Exact) (count : Nat) :
    (s.allocPagesContiguousZeroed count).2.Exact := by
  have hinv := h.inv.allocPagesContiguous count
  have htot := s.pmm.allocPagesContiguous_totalPages count
  unfold PmmState.allocPagesContiguousZeroed
  split
  · rename_i f a' hs
    rw [hs] at hinv htot
    obtain ⟨r, -, hfree, -, hbits⟩ := allocPagesContiguous_some h.inv hs
    -- the run taken is the list `[r, r + count)`
    have hf := freePages_add_of_isFree h.inv hinv htot (l := List.range' r count)
      List.nodup_range' (fun p hp => by rw [List.mem_range'_1] at hp; exact hfree p hp.1 hp.2)
      (fun j => by
        rw [hbits j]
        by_cases hj : r ≤ j ∧ j < r + count <;> simp [hj, List.mem_range'_1])
    rw [List.length_range'] at hf
    exact h.take hinv htot hf
  · rename_i a' hs
    rw [(allocPagesContiguous_none h.inv hs).1]
    exact h.keep h.inv rfl rfl

@[simp] theorem cowRefDec_pmm (pa : Nat) : (s.cowRefDec pa).2.pmm = s.pmm := by
  unfold cowRefDec; split <;> (try split) <;> rfl

@[simp] theorem cowRefDec_totalPages (pa : Nat) : (s.cowRefDec pa).2.totalPages = s.totalPages := by
  unfold cowRefDec; split <;> (try split) <;> rfl

@[simp] theorem cowRefDec_allocatedPages (pa : Nat) :
    (s.cowRefDec pa).2.allocatedPages = s.allocatedPages := by
  unfold cowRefDec; split <;> (try split) <;> rfl

theorem Exact.cowRefDec (h : s.Exact) (pa : Nat) : (s.cowRefDec pa).2.Exact :=
  ⟨by simpa using h.inv, by simpa using h.total_lt, by simpa using h.totalPages_eq,
    by simpa using h.allocatedPages_eq⟩

theorem Exact.cowRefInc (h : s.Exact) (pa : Nat) : (s.cowRefInc pa).Exact :=
  ⟨h.inv, h.total_lt, h.totalPages_eq, h.allocatedPages_eq⟩

theorem Exact.freePage (h : s.Exact) (frame : Nat) : (s.freePage frame).Exact := by
  have h1 := h.cowRefDec frame
  unfold PmmState.freePage
  dsimp only
  split_ifs with hlast
  · exact h1
  · -- the bitmap's outcome: only a real free moves the counter
    set s1 := (s.cowRefDec frame).2
    have hinv := h1.inv.freePage frame
    have htot := s1.pmm.freePage_totalPages frame
    have hkeep := (freePage_spec (a := s1.pmm) frame).2
    split
    · rename_i a' hs
      have hf := @freePage_freePages_of_freed s1.pmm frame (by rw [hs])
      rw [hs] at hinv htot hf
      exact h1.release hinv htot hf
    · rename_i a' hs
      have ha' : a' = s1.pmm := by simpa [hs] using hkeep
      rw [ha']
      exact ⟨h1.inv, h1.total_lt, h1.totalPages_eq, h1.allocatedPages_eq⟩
    · rename_i a' hs
      have ha' : a' = s1.pmm := by simpa [hs] using hkeep
      rw [ha']
      exact h1.keep h1.inv rfl rfl

/-- The loop of `reserve_range` over pages below `total_pages`: it marks the
free ones used, counts them, and changes nothing else. -/
theorem reserveLoop_spec (l : List Nat) (acc : BitmapAllocator × Nat)
    (hl : ∀ i ∈ l, i < acc.1.totalPages) :
    let r := l.foldl (fun (acc : BitmapAllocator × Nat) i =>
      if acc.1.isFree i then (acc.1.markUsed i, acc.2 + 1) else acc) acc
    r.1 = { acc.1 with bitmap := r.1.bitmap } ∧ r.1.bitmap.length = acc.1.bitmap.length ∧
      WordBitmap.count r.1.bitmap acc.1.totalPages + r.2 =
        WordBitmap.count acc.1.bitmap acc.1.totalPages + acc.2 ∧
      ∀ i, r.1.isFree i = true → acc.1.isFree i = true := by
  induction l generalizing acc with
  | nil => exact ⟨rfl, rfl, rfl, fun _ h => h⟩
  | cons i l ih =>
    have hi := hl i List.mem_cons_self
    dsimp only [List.foldl_cons]
    split
    · rename_i hfree
      -- a free page: one bit cleared, one more reserved
      obtain ⟨heq, hlen, hcount, hsub⟩ :=
        ih (acc.1.markUsed i, acc.2 + 1) (fun j hj => hl j (List.mem_cons_of_mem i hj))
      have hc := WordBitmap.count_clear hi hfree
      refine ⟨by rw [heq]; rfl, by simpa using hlen, ?_, fun j hj => ?_⟩
      · simp only [markUsed_totalPages, markUsed_bitmap] at hcount
        omega
      · have := hsub j hj
        rw [isFree_markUsed, Bool.and_eq_true] at this
        exact this.1
    · exact ih acc (fun j hj => hl j (List.mem_cons_of_mem i hj))

theorem Exact.reserveRange (h : s.Exact) (base len : Nat) : (s.reserveRange base len).Exact := by
  unfold PmmState.reserveRange
  split_ifs with hb
  · exact h
  · dsimp only
    obtain ⟨heq, hlen, hcount, hsub⟩ := reserveLoop_spec
      ((List.range' ((base - s.pmm.baseAddr) / pageSize) (len / pageSize)).filter
        (· < s.pmm.totalPages)) (s.pmm, 0)
      (fun i hi => by simpa using (List.mem_filter.mp hi).2)
    generalize ((List.range' ((base - s.pmm.baseAddr) / pageSize) (len / pageSize)).filter
        (· < s.pmm.totalPages)).foldl _ (s.pmm, 0) = r at heq hlen hcount hsub ⊢
    obtain ⟨pmm', reserved⟩ := r
    dsimp only at heq hlen hcount hsub ⊢
    rw [← h.inv.freePages_eq] at hcount
    have htot : pmm'.totalPages = s.pmm.totalPages := by rw [heq]
    have hfp : pmm'.freePages = s.pmm.freePages := by rw [heq]
    have hhint : pmm'.nextFreeHint = s.pmm.nextFreeHint := by rw [heq]
    -- the reserved pages leave the free count, and the counter gets them
    have hinv : ({ pmm' with freePages := pmm'.freePages - reserved } : BitmapAllocator).Inv := by
      refine ⟨?_, fun i hi => ?_, ?_, ?_⟩
      · show pmm'.bitmap.length = (pmm'.totalPages + 63) / 64
        rw [hlen, h.inv.length_bitmap, htot]
      · show pmm'.isFree i = false
        cases hf : pmm'.isFree i
        · rfl
        · have := h.inv.clear_above i (by rw [← htot]; exact hi)
          rw [hsub i hf] at this
          cases this
      · show pmm'.freePages - reserved = WordBitmap.count pmm'.bitmap pmm'.totalPages
        rw [hfp, htot]
        omega
      · show pmm'.nextFreeHint ≤ pmm'.totalPages
        rw [hhint, htot]
        exact h.inv.hint_le
    exact h.take hinv htot (by dsimp only; omega)

/-- With the counter exact, `stats` reports the bitmap: its pages, those in
use, and those free. -/
theorem Exact.stats (h : s.Exact) :
    s.stats = (s.pmm.totalPages, s.pmm.totalPages - s.pmm.freePages, s.pmm.freePages) := by
  have hle := h.inv.freePages_le
  rw [PmmState.stats, h.totalPages_eq, h.allocatedPages_eq, Nat.sub_sub_self hle]

end Exactness

/-! ## What the calls free -/

section Frees

variable {s}

/-- `free_page` frees at most the page of `frame`. -/
theorem isFree_of_freePage {frame i : Nat} (h : (s.freePage frame).pmm.isFree i = true) :
    s.pmm.isFree i = true ∨ i = (frame - s.pmm.baseAddr) / pageSize := by
  have hdec := s.cowRefDec_pmm frame
  unfold PmmState.freePage at h
  dsimp only at h
  split_ifs at h
  · left
    rwa [hdec] at h
  · -- whatever the bitmap's outcome, its new state is the one `free_page` left
    split at h <;>
    · rename_i a' hs
      rw [hdec] at hs
      exact BitmapAllocator.isFree_freePage (by rw [hs]; exact h)

@[simp] theorem freePage_baseAddr (frame : Nat) :
    (s.freePage frame).pmm.baseAddr = s.pmm.baseAddr := by
  unfold PmmState.freePage
  dsimp only
  split_ifs
  · simp
  · split <;>
    · rename_i a' hs
      have := (s.cowRefDec frame).2.pmm.freePage_baseAddr frame
      rw [hs] at this
      simpa using this

/-- Freeing a list of frames frees at most their pages. -/
theorem isFree_of_foldl_freePage (frames : List Nat) {s : PmmState} {i : Nat}
    (h : (frames.foldl freePage s).pmm.isFree i = true) :
    s.pmm.isFree i = true ∨ ∃ f ∈ frames, i = (f - s.pmm.baseAddr) / pageSize := by
  induction frames generalizing s with
  | nil => exact .inl h
  | cons f frames ih =>
    rcases ih h with h | ⟨f', hf', rfl⟩
    · rcases isFree_of_freePage h with h | rfl
      · exact .inl h
      · exact .inr ⟨f, List.mem_cons_self, rfl⟩
    · rw [freePage_baseAddr]
      exact .inr ⟨f', List.mem_cons_of_mem f hf', rfl⟩

end Frees

/-! ## Runs of the public calls -/

/-- The public calls of `pmm.rs` after `init`. -/
inductive Call where
  | allocPage
  | allocPagesZeroed (count : Nat)
  | allocPagesContiguousZeroed (count : Nat)
  | freePage (frame : Nat)
  | freePagesContiguous (frame count : Nat)
  | reserveRange (base len : Nat)
  | cowRefInc (pa : Nat)
  | cowRefDec (pa : Nat)
  deriving DecidableEq, Repr

/-- The state after one call. -/
def Call.apply (s : PmmState) : Call → PmmState
  | .allocPage => s.allocPage.2
  | .allocPagesZeroed count => (s.allocPagesZeroed count).2
  | .allocPagesContiguousZeroed count => (s.allocPagesContiguousZeroed count).2
  | .freePage frame => s.freePage frame
  | .freePagesContiguous frame count => s.freePagesContiguous frame count
  | .reserveRange base len => s.reserveRange base len
  | .cowRefInc pa => s.cowRefInc pa
  | .cowRefDec pa => (s.cowRefDec pa).2

/-- The state after a sequence of calls. -/
def runCalls (s : PmmState) (calls : List Call) : PmmState := calls.foldl Call.apply s

/-- Every call but `free_pages_contiguous` keeps the counter exact. -/
theorem Exact.apply {s : PmmState} (h : s.Exact) :
    ∀ c : Call, (∀ frame count, c ≠ .freePagesContiguous frame count) → (c.apply s).Exact
  | .allocPage, _ => h.allocPage
  | .allocPagesZeroed count, _ => h.allocPagesZeroed count
  | .allocPagesContiguousZeroed count, _ => h.allocPagesContiguousZeroed count
  | .freePage frame, _ => h.freePage frame
  | .freePagesContiguous frame count, hc => absurd rfl (hc frame count)
  | .reserveRange base len, _ => h.reserveRange base len
  | .cowRefInc pa, _ => h.cowRefInc pa
  | .cowRefDec pa, _ => h.cowRefDec pa

theorem Exact.runCalls {s : PmmState} (h : s.Exact) {calls : List Call}
    (hcalls : ∀ c ∈ calls, ∀ frame count, c ≠ .freePagesContiguous frame count) :
    (s.runCalls calls).Exact := by
  induction calls generalizing s with
  | nil => exact h
  | cons c calls ih =>
    exact ih (h.apply c (hcalls c List.mem_cons_self))
      (fun c' hc' => hcalls c' (List.mem_cons_of_mem c hc'))

/-- After `init`, and any sequence of public calls other than
`free_pages_contiguous`, `ALLOCATED_PAGES` is `total_pages` less the
bitmap's free pages, and `stats` reports the bitmap's state. -/
theorem init_runCalls_exact (ramBase ramSize kernelEnd : Nat) (hsize : ramSize < 2 ^ 64)
    (hkernel : kernelEnd ≤ ramBase + ramSize / pageSize * pageSize) (calls : List Call)
    (hcalls : ∀ c ∈ calls, ∀ frame count, c ≠ .freePagesContiguous frame count) :
    let s := (boot.init ramBase ramSize kernelEnd).runCalls calls
    s.allocatedPages = s.pmm.totalPages - s.pmm.freePages ∧
      s.pmm.freePages = WordBitmap.count s.pmm.bitmap s.pmm.totalPages ∧
      s.stats = (s.pmm.totalPages, s.pmm.totalPages - s.pmm.freePages, s.pmm.freePages) :=
  let h := (Exact.init hsize hkernel).runCalls hcalls
  ⟨h.allocatedPages_eq, h.inv.freePages_eq, h.stats⟩

theorem init_runCalls_exact_on_eight_pages :
    (0x8000 : Nat) < 2 ^ 64 ∧ 0x4000_2000 ≤ 0x4000_0000 + 0x8000 / pageSize * pageSize ∧
      (∀ c ∈ [Call.allocPagesZeroed 2, .freePage 0x4000_2000, .freePage 0x4000_2000],
        ∀ frame count, c ≠ .freePagesContiguous frame count) ∧
      let s := (boot.init 0x4000_0000 0x8000 0x4000_2000).runCalls
        [.allocPagesZeroed 2, .freePage 0x4000_2000, .freePage 0x4000_2000]
      s.allocatedPages = s.pmm.totalPages - s.pmm.freePages ∧
        s.pmm.freePages = WordBitmap.count s.pmm.bitmap s.pmm.totalPages ∧
        s.stats = (s.pmm.totalPages, s.pmm.totalPages - s.pmm.freePages, s.pmm.freePages) :=
  ⟨by decide, by decide, by simp,
    init_runCalls_exact 0x4000_0000 0x8000 0x4000_2000 (by decide) (by decide) _ (by simp)⟩

/-- `free_pages_contiguous` over a page that is already free: the bitmap keeps
the page free and its count as it was, but `ALLOCATED_PAGES` drops below
zero, and `stats` reports every page allocated and none free. -/
theorem freePagesContiguous_of_free_page :
    (let s := (boot.init 0x4000_0000 0x8000 0x4000_0000).freePagesContiguous 0x4000_0000 1
     s.pmm.totalPages - s.pmm.freePages = 0 ∧ s.allocatedPages = 2 ^ 64 - 1 ∧
      s.stats = (8, 2 ^ 64 - 1, 0)) := by
  decide +kernel

end PmmState

end Akuma.Pmm
