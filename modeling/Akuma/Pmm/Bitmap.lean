import Akuma.Lib.WordBitmap
import Akuma.Mmu.Table

/-!
# The bitmap page allocator

`BitmapAllocator` of `pmm.rs`: one bit per 4 KiB page of RAM in a vector of
`u64` words (a set bit is a free page), the number of free pages beside
it, and a hint where the next search starts. The words are a
`WordBitmap`; `mark_used`, `mark_free` and `is_free` are its clear, set
and test.

The searches of `alloc_page` and `alloc_pages` visit the words from the
hint's word to the end and then from the first word up to the hint's
word. The source indexes the second range unchecked; a word past the end
of the vector reads here as zero. That only happens when the hint lies
past the end of the bitmap, which the invariant `Inv` rules out.

Page counts are `usize` and are kept as `Nat`. `free_pages` is only ever
decreased by pages that the invariant counts, except in `init`, where
`total_pages - kernel_pages` wraps modulo `2 ^ 64` (a release build)
when the kernel's last page is the partial page past `total_pages`.
-/

namespace Akuma.Pmm

open Akuma.Mmu (pageSize)

/-- `BitmapAllocator`. -/
structure BitmapAllocator where
  bitmap : List UInt64
  baseAddr : Nat
  totalPages : Nat
  freePages : Nat
  nextFreeHint : Nat
  deriving DecidableEq, Repr

/-- `FreeOutcome`. -/
inductive FreeOutcome where
  | freed
  | doubleFree
  | outOfRange
  deriving DecidableEq, Repr

namespace BitmapAllocator

variable (a : BitmapAllocator)

/-- `BitmapAllocator::new`. -/
def new : BitmapAllocator := ⟨[], 0, 0, 0, 0⟩

/-- `mark_used`. -/
def markUsed (pageIdx : Nat) : BitmapAllocator :=
  { a with bitmap := WordBitmap.clear a.bitmap pageIdx }

/-- `mark_free`. -/
def markFree (pageIdx : Nat) : BitmapAllocator :=
  { a with bitmap := WordBitmap.set a.bitmap pageIdx }

/-- `is_free`. -/
def isFree (pageIdx : Nat) : Bool := WordBitmap.test a.bitmap pageIdx

/-- `mark_used` and `free_pages -= 1`, the bookkeeping of every page an
allocation takes. -/
def takePage (pageIdx : Nat) : BitmapAllocator :=
  { a.markUsed pageIdx with freePages := a.freePages - 1 }

/-- `mark_free` and `free_pages += 1`, the bookkeeping of every page that is
given back. -/
def releasePage (pageIdx : Nat) : BitmapAllocator :=
  { a.markFree pageIdx with freePages := a.freePages + 1 }

/-- The word at index `w`. -/
def word (w : Nat) : UInt64 := a.bitmap.getD w 0

/-! ## `init` -/

/-- `init`: every page free (each word of the new vector set to `!0`), the
kernel's pages `[0, kernel_pages)` marked used, and the bits past
`total_pages` in the last word masked off. -/
def init (base size kernelEnd : Nat) : BitmapAllocator :=
  let totalPages := size / pageSize
  let bitmapSize := (totalPages + 63) / 64
  let a : BitmapAllocator :=
    { new with baseAddr := base, totalPages, bitmap := List.replicate bitmapSize (~~~0) }
  -- `kernel_end.saturating_sub(base).div_ceil(PAGE_SIZE)`
  let kernelPages := (kernelEnd - base + pageSize - 1) / pageSize
  let a := (List.range kernelPages).foldl markUsed a
  let a := { a with
    freePages := (2 ^ 64 + totalPages - kernelPages) % 2 ^ 64
    nextFreeHint := kernelPages }
  let remaining := totalPages % 64
  if remaining ≠ 0 then
    let mask : UInt64 := (1 <<< remaining.toUInt64) - 1
    { a with bitmap := a.bitmap.modify (bitmapSize - 1) (· &&& mask) }
  else a

/-! ## `alloc_page` -/

/-- The words the searches of `alloc_page` and `alloc_pages` visit: from the
hint's word to the end, then from the first word up to the hint's word. -/
def scanOrder : List Nat :=
  let startWord := a.nextFreeHint / 64
  List.range' startWord (a.bitmap.length - startWord) ++ List.range startWord

/-- The search of `alloc_page` through the words `ws`: the lowest free page
of the first non-zero word whose lowest free page is below `total_pages`. -/
def findFreePage : List Nat → Option Nat
  | [] => none
  | w :: ws =>
    if a.word w ≠ 0 then
      let pageIdx := w * 64 + WordBitmap.trailingZeros (a.word w)
      if pageIdx < a.totalPages then some pageIdx else findFreePage ws
    else findFreePage ws

/-- `alloc_page`: the address of the frame taken. -/
def allocPage : Option Nat × BitmapAllocator :=
  match a.findFreePage a.scanOrder with
  | some pageIdx =>
    (some (a.baseAddr + pageIdx * pageSize), { a.takePage pageIdx with nextFreeHint := pageIdx + 1 })
  | none => (none, a)

/-! ## `alloc_pages` -/

/-- The inner `while` of `alloc_pages` on word `w`: take the lowest free page
of the word until the word is empty, a page at or past `total_pages` turns
up, or `count` frames are taken (`Sum.inl`, the early return). Each round
clears a bit of the word, so 64 rounds empty it. -/
def takeWord (count w : Nat) :
    Nat → BitmapAllocator → List Nat → (BitmapAllocator × List Nat) ⊕ (BitmapAllocator × List Nat)
  | 0, a, result => .inr (a, result)
  | fuel + 1, a, result =>
    if a.word w = 0 then .inr (a, result) else
    let pageIdx := w * 64 + WordBitmap.trailingZeros (a.word w)
    if a.totalPages ≤ pageIdx then .inr (a, result) else
    let frame := a.baseAddr + pageIdx * pageSize
    let a := a.takePage pageIdx
    let result := result ++ [frame]
    if result.length = count then .inl ({ a with nextFreeHint := pageIdx + 1 }, result)
    else takeWord count w fuel a result

/-- The two passes of `alloc_pages` over the words `ws`. -/
def takeWords (count : Nat) :
    List Nat → BitmapAllocator → List Nat → (BitmapAllocator × List Nat) ⊕ (BitmapAllocator × List Nat)
  | [], a, result => .inr (a, result)
  | w :: ws, a, result =>
    match takeWord count w 64 a result with
    | .inl r => .inl r
    | .inr (a, result) => takeWords count ws a result

/-- The roll-back of an `alloc_pages` that found too few pages: every frame
taken is marked free again. -/
def rollBack (frames : List Nat) : BitmapAllocator :=
  frames.foldl (fun a frame => a.releasePage ((frame - a.baseAddr) / pageSize)) a

/-- `alloc_pages`: `count` frames, not necessarily contiguous. -/
def allocPages (count : Nat) : Option (List Nat) × BitmapAllocator :=
  if count = 0 then (some [], a) else
  if a.freePages < count then (none, a) else
  match takeWords count a.scanOrder a [] with
  | .inl (a, result) => (some result, a)
  | .inr (a, result) => (none, a.rollBack result)

/-! ## `alloc_pages_contiguous` -/

/-- The page scan of `alloc_pages_contiguous` over `pages`, with the start
and the length of the run of free pages seen last: the start of the first
run of `count` free pages. -/
def findRun (count : Nat) : List Nat → Nat → Nat → Option Nat
  | [], _, _ => none
  | p :: ps, runStart, runLen =>
    if a.isFree p then
      let runStart := if runLen = 0 then p else runStart
      if runLen + 1 = count then some runStart else findRun count ps runStart (runLen + 1)
    else findRun count ps runStart 0

/-- `alloc_pages_contiguous`: the first frame of `count` contiguous frames. -/
def allocPagesContiguous (count : Nat) : Option Nat × BitmapAllocator :=
  if count = 0 then (none, a) else
  if count = 1 then a.allocPage else
  if a.freePages < count then (none, a) else
  let hint := a.nextFreeHint
  -- the pass from the hint, then, unless that pass started at 0, from 0
  let found := match a.findRun count (List.range' hint (a.totalPages - hint)) 0 0 with
    | some runStart => some runStart
    | none => if hint = 0 then none else a.findRun count (List.range a.totalPages) 0 0
  match found with
  | some runStart =>
    let a' := (List.range' runStart count).foldl markUsed a
    (some (a.baseAddr + runStart * pageSize),
      { a' with freePages := a.freePages - count, nextFreeHint := runStart + count })
  | none => (none, a)

/-! ## Freeing -/

/-- `free_pages_contiguous`: every page of the range that is inside the
bitmap and used is marked free. -/
def freePagesContiguous (frame count : Nat) : BitmapAllocator :=
  if frame < a.baseAddr then a else
  let startPage := (frame - a.baseAddr) / pageSize
  let a := (List.range count).foldl (fun a i =>
      let pageIdx := startPage + i
      if pageIdx < a.totalPages ∧ a.isFree pageIdx = false then a.releasePage pageIdx else a) a
  if startPage < a.nextFreeHint then { a with nextFreeHint := startPage } else a

/-- `free_page`: a page that is already free, or outside the bitmap, is
refused and the state kept. -/
def freePage (frame : Nat) : FreeOutcome × BitmapAllocator :=
  if frame < a.baseAddr then (.outOfRange, a) else
  let pageIdx := (frame - a.baseAddr) / pageSize
  if a.totalPages ≤ pageIdx then (.outOfRange, a) else
  if a.isFree pageIdx then (.doubleFree, a) else
  let a' := a.releasePage pageIdx
  (.freed, if pageIdx < a.nextFreeHint then { a' with nextFreeHint := pageIdx } else a')

/-! ## Small lemmas -/

section Fields

variable (p : Nat)

/-- The address of page `p`. -/
def frameOf (p : Nat) : Nat := a.baseAddr + p * pageSize

@[simp] theorem markUsed_baseAddr : (a.markUsed p).baseAddr = a.baseAddr := rfl
@[simp] theorem markUsed_totalPages : (a.markUsed p).totalPages = a.totalPages := rfl
@[simp] theorem markUsed_freePages : (a.markUsed p).freePages = a.freePages := rfl
@[simp] theorem markUsed_nextFreeHint : (a.markUsed p).nextFreeHint = a.nextFreeHint := rfl
@[simp] theorem markUsed_bitmap : (a.markUsed p).bitmap = WordBitmap.clear a.bitmap p := rfl

@[simp] theorem takePage_baseAddr : (a.takePage p).baseAddr = a.baseAddr := rfl
@[simp] theorem takePage_totalPages : (a.takePage p).totalPages = a.totalPages := rfl
@[simp] theorem takePage_freePages : (a.takePage p).freePages = a.freePages - 1 := rfl
@[simp] theorem takePage_nextFreeHint : (a.takePage p).nextFreeHint = a.nextFreeHint := rfl
@[simp] theorem takePage_bitmap : (a.takePage p).bitmap = WordBitmap.clear a.bitmap p := rfl

@[simp] theorem releasePage_baseAddr : (a.releasePage p).baseAddr = a.baseAddr := rfl
@[simp] theorem releasePage_totalPages : (a.releasePage p).totalPages = a.totalPages := rfl
@[simp] theorem releasePage_freePages : (a.releasePage p).freePages = a.freePages + 1 := rfl
@[simp] theorem releasePage_nextFreeHint : (a.releasePage p).nextFreeHint = a.nextFreeHint := rfl
@[simp] theorem releasePage_bitmap : (a.releasePage p).bitmap = WordBitmap.set a.bitmap p := rfl

theorem isFree_markUsed (i : Nat) : (a.markUsed p).isFree i = (a.isFree i && decide (i ≠ p)) :=
  WordBitmap.test_clear ..

theorem isFree_takePage (i : Nat) : (a.takePage p).isFree i = (a.isFree i && decide (i ≠ p)) :=
  WordBitmap.test_clear ..

theorem isFree_releasePage (i : Nat) :
    (a.releasePage p).isFree i = (a.isFree i || decide (i = p ∧ p / 64 < a.bitmap.length)) :=
  WordBitmap.test_set ..

/-- `mark_used` over a list of pages clears exactly those pages. -/
theorem foldl_markUsed (l : List Nat) :
    l.foldl markUsed a = { a with bitmap := l.foldl WordBitmap.clear a.bitmap } := by
  induction l generalizing a with
  | nil => rfl
  | cons q l ih => rw [List.foldl_cons, ih, List.foldl_cons]; rfl

/-- A non-zero word is a word of the bitmap. -/
theorem getElem?_of_word_ne_zero {w : Nat} (h : a.word w ≠ 0) : a.bitmap[w]? = some (a.word w) := by
  unfold word at h ⊢
  rw [List.getD_eq_getElem?_getD] at h ⊢
  cases hw : a.bitmap[w]? with
  | none => rw [hw] at h; exact absurd rfl h
  | some x => rfl

/-- The lowest set bit of a non-zero word is a free page. -/
theorem isFree_trailingZeros {w : Nat} (h : a.word w ≠ 0) :
    a.isFree (w * 64 + WordBitmap.trailingZeros (a.word w)) = true :=
  (WordBitmap.test_trailingZeros a.bitmap (a.getElem?_of_word_ne_zero h) h).2

end Fields

/-! ## The invariant -/

/-- The invariant of the allocator: the bitmap has one bit per page, no bit
past `total_pages` is set, `free_pages` counts the set bits, and the hint
lies in the bitmap. -/
structure Inv : Prop where
  length_bitmap : a.bitmap.length = (a.totalPages + 63) / 64
  clear_above : ∀ i, a.totalPages ≤ i → a.isFree i = false
  freePages_eq : a.freePages = WordBitmap.count a.bitmap a.totalPages
  hint_le : a.nextFreeHint ≤ a.totalPages

namespace Inv

variable {a} {p : Nat}

theorem lt_of_isFree (h : a.Inv) (hp : a.isFree p = true) : p < a.totalPages := by
  by_contra hn
  rw [h.clear_above p (by omega)] at hp
  exact Bool.false_ne_true hp

theorem freePages_le (h : a.Inv) : a.freePages ≤ a.totalPages := by
  rw [h.freePages_eq]
  exact WordBitmap.count_le _ _

/-- Every page lies in a word of the bitmap. -/
theorem div_lt_length (h : a.Inv) (hp : p < a.totalPages) : p / 64 < a.bitmap.length := by
  rw [h.length_bitmap]
  omega

/-- The hint's word is a word of the bitmap or the one just past it. -/
theorem hint_div_le (h : a.Inv) : a.nextFreeHint / 64 ≤ a.bitmap.length := by
  have := h.hint_le
  rw [h.length_bitmap]
  omega

theorem withHint (h : a.Inv) {n : Nat} (hn : n ≤ a.totalPages) : { a with nextFreeHint := n }.Inv :=
  ⟨h.length_bitmap, h.clear_above, h.freePages_eq, hn⟩

/-- Taking a free page keeps the invariant. -/
theorem takePage (h : a.Inv) (hp : a.isFree p = true) : (a.takePage p).Inv where
  length_bitmap := by simpa using h.length_bitmap
  clear_above i hi := by
    rw [isFree_takePage, h.clear_above i (by simpa using hi), Bool.false_and]
  freePages_eq := by
    have hc := WordBitmap.count_clear (h.lt_of_isFree hp) hp
    simp only [takePage_freePages, takePage_bitmap, takePage_totalPages, h.freePages_eq]
    omega
  hint_le := h.hint_le

/-- Giving back a used page keeps the invariant. -/
theorem releasePage (h : a.Inv) (hp : p < a.totalPages) (hf : a.isFree p = false) :
    (a.releasePage p).Inv where
  length_bitmap := by simpa using h.length_bitmap
  clear_above i hi := by
    have hip : i ≠ p := by simp at hi; omega
    rw [isFree_releasePage, h.clear_above i (by simpa using hi)]
    simp [hip]
  freePages_eq := by
    have hc := WordBitmap.count_set hp (h.div_lt_length hp) hf
    simp only [releasePage_freePages, releasePage_bitmap, releasePage_totalPages, h.freePages_eq, hc]
  hint_le := h.hint_le

end Inv

/-! ## `init` -/

section Init

variable {base size kernelEnd : Nat}

theorem mask_toNat {r : Nat} (hr : r < 64) : ((1 : UInt64) <<< r.toUInt64 - 1).toNat = 2 ^ r - 1 := by
  have h1 : ((1 : UInt64) <<< r.toUInt64).toNat = 2 ^ r := by
    rw [UInt64.toNat_shiftLeft, Nat.toUInt64_eq, UInt64.toNat_ofNat',
      Nat.mod_eq_of_lt (by omega : r < 2 ^ 64), Nat.mod_eq_of_lt hr, UInt64.toNat_one,
      Nat.one_shiftLeft]
    exact Nat.mod_eq_of_lt (Nat.pow_lt_pow_right (by decide) hr)
  have hle : (1 : UInt64) ≤ 1 <<< r.toUInt64 := by
    rw [UInt64.le_iff_toNat_le, h1, UInt64.toNat_one]
    exact Nat.one_le_two_pow
  rw [UInt64.toNat_sub_of_le _ _ hle, h1, UInt64.toNat_one]

/-- After `init`, the free pages are those from the kernel's end to
`total_pages`. -/
theorem isFree_init (i : Nat) :
    (init base size kernelEnd).isFree i =
      decide ((kernelEnd - base + pageSize - 1) / pageSize ≤ i ∧ i < size / pageSize) := by
  -- the bits of the words before the mask: the kernel's pages cleared
  have hbits : WordBitmap.test ((List.range ((kernelEnd - base + pageSize - 1) / pageSize)).foldl
      WordBitmap.clear (List.replicate ((size / pageSize + 63) / 64) (~~~0))) i =
      decide (i / 64 < (size / pageSize + 63) / 64 ∧
        (kernelEnd - base + pageSize - 1) / pageSize ≤ i) := by
    rw [WordBitmap.test_foldl_clear, WordBitmap.test_replicate_allOnes]
    simp [List.mem_range]
  unfold init
  dsimp only
  split
  · rename_i hr
    rw [isFree, WordBitmap.test_modify_and, foldl_markUsed, hbits,
      mask_toNat (Nat.mod_lt _ (by decide)), Nat.testBit_two_pow_sub_one]
    -- the last word keeps the bits below `total_pages % 64`
    rw [Bool.eq_iff_iff]
    simp only [Bool.and_eq_true, Bool.or_eq_true, decide_eq_true_eq]
    omega
  · rename_i hr
    rw [isFree, foldl_markUsed, hbits, Bool.eq_iff_iff]
    -- no partial word: a bit lies in a word exactly when it is below `total_pages`
    simp only [decide_eq_true_eq]
    omega

@[simp] theorem totalPages_init : (init base size kernelEnd).totalPages = size / pageSize := by
  unfold init; dsimp only; split <;> simp [foldl_markUsed]

theorem length_init :
    (init base size kernelEnd).bitmap.length = (size / pageSize + 63) / 64 := by
  unfold init; dsimp only; split <;> simp [foldl_markUsed]

theorem freePages_init : (init base size kernelEnd).freePages =
    (2 ^ 64 + size / pageSize - (kernelEnd - base + pageSize - 1) / pageSize) % 2 ^ 64 := by
  unfold init; dsimp only; split <;> rfl

theorem nextFreeHint_init :
    (init base size kernelEnd).nextFreeHint = (kernelEnd - base + pageSize - 1) / pageSize := by
  unfold init; dsimp only; split <;> rfl

/-- `init` establishes the invariant when the kernel ends inside the pages
the bitmap counts. -/
theorem init_inv (hsize : size < 2 ^ 64)
    (hkernel : kernelEnd ≤ base + size / pageSize * pageSize) : (init base size kernelEnd).Inv := by
  have hk : (kernelEnd - base + pageSize - 1) / pageSize ≤ size / pageSize := by
    simp only [pageSize] at hkernel ⊢
    omega
  refine ⟨by rw [length_init, totalPages_init], fun i hi => ?_, ?_, ?_⟩
  · rw [isFree_init, totalPages_init] at *
    simp only [decide_eq_false_iff_not, not_and, not_lt]
    omega
  · rw [totalPages_init, WordBitmap.count_of_test_eq (k := (kernelEnd - base + pageSize - 1) / pageSize)]
    · have htot : size / pageSize < 2 ^ 64 := lt_of_le_of_lt (Nat.div_le_self _ _) hsize
      rw [freePages_init, Nat.add_sub_assoc hk, Nat.add_mod_left,
        Nat.mod_eq_of_lt (lt_of_le_of_lt (Nat.sub_le _ _) htot)]
    · intro i hi
      have h := @isFree_init base size kernelEnd i
      rw [isFree] at h
      rw [h]
      simp [hi]
  · rw [nextFreeHint_init, totalPages_init]
    exact hk

end Init

/-- States with the same fields and the same free pages are equal. -/
theorem eq_of_isFree {a a' : BitmapAllocator} (hlen : a.bitmap.length = a'.bitmap.length)
    (hbase : a.baseAddr = a'.baseAddr) (htotal : a.totalPages = a'.totalPages)
    (hfree : a.freePages = a'.freePages) (hhint : a.nextFreeHint = a'.nextFreeHint)
    (hbits : ∀ i, a.isFree i = a'.isFree i) : a = a' := by
  have hbitmap := WordBitmap.eq_of_test hlen hbits
  cases a
  cases a'
  simp_all

end BitmapAllocator

end Akuma.Pmm
