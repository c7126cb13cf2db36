import Akuma.Pmm.Bitmap

/-!
# What the allocator's operations do

Each operation of `BitmapAllocator` keeps the invariant `Inv`, and from a
state with the invariant each does what an allocator should: a frame it
hands out is a page that was free, a failed allocation changes nothing
and fails only for want of free pages (or of a free run, for
`alloc_pages_contiguous`), and `free_page` frees exactly a used page.

`alloc_pages` takes pages one by one and gives them all back when it runs
short; `Taken` is what its rounds keep, and the roll-back restores the
state exactly because the words are determined by their bits.
`alloc_pages_contiguous` scans pages with the run seen last; `RunEndsAt`
is what that scan keeps, and it finds a run whenever one exists, also one
that straddles the hint.
-/

namespace Akuma.Pmm

open Akuma.Mmu (pageSize)

namespace BitmapAllocator

variable (a : BitmapAllocator)

/-! ## `alloc_page` -/

section AllocPage

variable {a}

/-- Every word of the bitmap is on the search path. -/
theorem mem_scanOrder {w : Nat} (hw : w < a.bitmap.length) : w ∈ a.scanOrder := by
  unfold scanOrder
  simp only [List.mem_append, List.mem_range'_1, List.mem_range]
  omega

/-- The search returns a free page below `total_pages`. -/
theorem findFreePage_spec {ws : List Nat} {p : Nat} (h : a.findFreePage ws = some p) :
    a.isFree p = true ∧ p < a.totalPages := by
  induction ws with
  | nil => simp [findFreePage] at h
  | cons w ws ih =>
    unfold findFreePage at h
    dsimp only at h
    split_ifs at h with hw hp
    · cases h
      exact ⟨a.isFree_trailingZeros hw, hp⟩
    · exact ih h
    · exact ih h

/-- Under the invariant, the search passes over zero words only. -/
theorem word_eq_zero_of_findFreePage (hinv : a.Inv) {ws : List Nat}
    (h : a.findFreePage ws = none) : ∀ w ∈ ws, a.word w = 0 := by
  induction ws with
  | nil => simp
  | cons w ws ih =>
    -- a non-zero word's lowest free page is below `total_pages`, and is found
    have hw : a.word w = 0 := by
      by_contra hw
      have hp := hinv.lt_of_isFree (a.isFree_trailingZeros hw)
      simp [findFreePage, hw, hp] at h
    have hrest : a.findFreePage ws = none := by simpa [findFreePage, hw] using h
    intro v hv
    rcases List.mem_cons.mp hv with rfl | hv
    · exact hw
    · exact ih hrest v hv

/-- A search of the whole bitmap that finds nothing means no page is free. -/
theorem isFree_of_findFreePage_none (hinv : a.Inv) (h : a.findFreePage a.scanOrder = none)
    (i : Nat) : a.isFree i = false := by
  by_cases hi : i / 64 < a.bitmap.length
  · exact WordBitmap.test_of_getD_eq_zero a.bitmap
      (word_eq_zero_of_findFreePage hinv h _ (mem_scanOrder hi))
  · exact WordBitmap.test_of_length_le a.bitmap (by omega)

@[simp] theorem allocPage_totalPages : a.allocPage.2.totalPages = a.totalPages := by
  unfold BitmapAllocator.allocPage
  split <;> rfl

theorem Inv.allocPage (h : a.Inv) : a.allocPage.2.Inv := by
  unfold BitmapAllocator.allocPage
  split
  · rename_i p hp
    obtain ⟨hfree, hlt⟩ := findFreePage_spec hp
    exact (h.takePage hfree).withHint (by simpa using hlt)
  · exact h

/-- `alloc_page` takes a page that was free, and only that page. -/
theorem allocPage_some {f : Nat} {a' : BitmapAllocator} (h : a.allocPage = (some f, a')) :
    ∃ i < a.totalPages, a.isFree i = true ∧ f = a.frameOf i ∧
      ∀ j, a'.isFree j = (a.isFree j && decide (j ≠ i)) := by
  unfold BitmapAllocator.allocPage at h
  split at h
  · rename_i p hp
    obtain ⟨hfree, hlt⟩ := findFreePage_spec hp
    simp only [Prod.mk.injEq, Option.some.injEq] at h
    obtain ⟨rfl, rfl⟩ := h
    exact ⟨p, hlt, hfree, rfl, fun j => a.isFree_takePage p j⟩
  · cases h

/-- `alloc_page` fails only when no page is free, and then changes nothing. -/
theorem allocPage_none (hinv : a.Inv) {a' : BitmapAllocator} (h : a.allocPage = (none, a')) :
    a' = a ∧ ∀ i, a.isFree i = false := by
  unfold BitmapAllocator.allocPage at h
  split at h
  · cases h
  · rename_i hp
    simp only [Prod.mk.injEq, true_and] at h
    exact ⟨h.symm, isFree_of_findFreePage_none hinv hp⟩

end AllocPage

/-! ## `alloc_pages` -/

/-- What the rounds of `alloc_pages` keep: `a` is `a0` with the distinct
pages `pages`, each free in `a0`, taken, and `result` holds their frames. -/
structure Taken (a0 a : BitmapAllocator) (pages result : List Nat) : Prop where
  inv : a.Inv
  baseAddr_eq : a.baseAddr = a0.baseAddr
  totalPages_eq : a.totalPages = a0.totalPages
  isFree_eq : ∀ j, a.isFree j = (a0.isFree j && decide (j ∉ pages))
  freePages_eq : a.freePages + pages.length = a0.freePages
  nodup : pages.Nodup
  free_before : ∀ p ∈ pages, a0.isFree p = true
  frames_eq : result = pages.map a0.frameOf

namespace Taken

variable {a0 a : BitmapAllocator} {pages result : List Nat}

theorem start (h : a.Inv) : Taken a a [] [] :=
  ⟨h, rfl, rfl, fun j => by simp, rfl, List.nodup_nil, fun _ h => by simp at h, rfl⟩

/-- Taking one more free page. -/
theorem takePage (ht : Taken a0 a pages result) {p : Nat} (hp : a.isFree p = true) :
    Taken a0 (a.takePage p) (pages ++ [p]) (result ++ [a.frameOf p]) := by
  have hp0 : a0.isFree p = true ∧ p ∉ pages := by
    simpa [ht.isFree_eq] using hp
  -- the page was counted, so the count is positive
  have hpos : 0 < a.freePages := by
    have hc := WordBitmap.count_clear (ht.inv.lt_of_isFree hp) hp
    rw [ht.inv.freePages_eq]
    omega
  refine ⟨ht.inv.takePage hp, ht.baseAddr_eq, ht.totalPages_eq, fun j => ?_, ?_, ?_, ?_, ?_⟩
  · rw [isFree_takePage, ht.isFree_eq]
    by_cases hj : j = p <;> simp [hj]
  · simp only [takePage_freePages, List.length_append, List.length_singleton]
    have := ht.freePages_eq
    omega
  · exact List.nodup_append.mpr ⟨ht.nodup, List.nodup_singleton p,
      fun x hx y hy => by rw [List.mem_singleton.mp hy]; exact fun h => hp0.2 (h ▸ hx)⟩
  · intro q hq
    rcases List.mem_append.mp hq with hq | hq
    · exact ht.free_before q hq
    · rw [List.mem_singleton.mp hq]
      exact hp0.1
  · rw [ht.frames_eq, List.map_append, List.map_singleton, frameOf, frameOf, ht.baseAddr_eq]

theorem withHint (ht : Taken a0 a pages result) {n : Nat} (hn : n ≤ a.totalPages) :
    Taken a0 { a with nextFreeHint := n } pages result :=
  ⟨ht.inv.withHint hn, ht.baseAddr_eq, ht.totalPages_eq, ht.isFree_eq, ht.freePages_eq,
    ht.nodup, ht.free_before, ht.frames_eq⟩

end Taken

section AllocPages

variable {a0 a a' : BitmapAllocator} {pages result r' : List Nat} {count w : Nat}

theorem takeWord_inl {fuel : Nat} (ht : Taken a0 a pages result)
    (h : takeWord count w fuel a result = .inl (a', r')) :
    ∃ pages', Taken a0 a' pages' r' ∧ r'.length = count := by
  induction fuel generalizing a pages result with
  | zero => simp [takeWord] at h
  | succ fuel ih =>
    unfold takeWord at h
    dsimp only at h
    split_ifs at h with hw hp hc
    · -- the early return once `count` frames are taken
      simp only [Sum.inl.injEq, Prod.mk.injEq] at h
      obtain ⟨rfl, rfl⟩ := h
      have hfree := a.isFree_trailingZeros hw
      exact ⟨_, (ht.takePage hfree).withHint (by simp; omega), hc⟩
    · exact ih (ht.takePage (a.isFree_trailingZeros hw)) h

theorem takeWord_inr {fuel : Nat} (ht : Taken a0 a pages result)
    (h : takeWord count w fuel a result = .inr (a', r')) :
    ∃ pages', Taken a0 a' pages' r' ∧ a'.nextFreeHint = a.nextFreeHint := by
  induction fuel generalizing a pages result with
  | zero =>
    simp only [takeWord, Sum.inr.injEq, Prod.mk.injEq] at h
    obtain ⟨rfl, rfl⟩ := h
    exact ⟨pages, ht, rfl⟩
  | succ fuel ih =>
    unfold takeWord at h
    dsimp only at h
    split_ifs at h with hw hp hc
    · simp only [Sum.inr.injEq, Prod.mk.injEq] at h
      obtain ⟨rfl, rfl⟩ := h
      exact ⟨pages, ht, rfl⟩
    · simp only [Sum.inr.injEq, Prod.mk.injEq] at h
      obtain ⟨rfl, rfl⟩ := h
      exact ⟨pages, ht, rfl⟩
    · obtain ⟨pages', ht', hhint⟩ := ih (ht.takePage (a.isFree_trailingZeros hw)) h
      exact ⟨pages', ht', hhint⟩

theorem takeWords_inl {ws : List Nat} (ht : Taken a0 a pages result)
    (h : takeWords count ws a result = .inl (a', r')) :
    ∃ pages', Taken a0 a' pages' r' ∧ r'.length = count := by
  induction ws generalizing a pages result with
  | nil => simp [takeWords] at h
  | cons w ws ih =>
    unfold takeWords at h
    split at h
    · rename_i r hr
      cases h
      exact takeWord_inl ht hr
    · rename_i a1 r1 hr
      obtain ⟨pages1, ht1, -⟩ := takeWord_inr ht hr
      exact ih ht1 h

theorem takeWords_inr {ws : List Nat} (ht : Taken a0 a pages result)
    (h : takeWords count ws a result = .inr (a', r')) :
    ∃ pages', Taken a0 a' pages' r' ∧ a'.nextFreeHint = a.nextFreeHint := by
  induction ws generalizing a pages result with
  | nil =>
    simp only [takeWords, Sum.inr.injEq, Prod.mk.injEq] at h
    obtain ⟨rfl, rfl⟩ := h
    exact ⟨pages, ht, rfl⟩
  | cons w ws ih =>
    unfold takeWords at h
    split at h
    · cases h
    · rename_i a1 r1 hr
      obtain ⟨pages1, ht1, hhint1⟩ := takeWord_inr ht hr
      obtain ⟨pages', ht', hhint'⟩ := ih ht1 h
      exact ⟨pages', ht', hhint'.trans hhint1⟩

/-- The roll-back gives every taken page back: the state is the one before
the rounds. -/
theorem rollBack_eq (h0 : a0.Inv) (ht : Taken a0 a pages result)
    (hhint : a.nextFreeHint = a0.nextFreeHint) : a.rollBack result = a0 := by
  induction pages generalizing a result with
  | nil =>
    rw [ht.frames_eq, List.map_nil, rollBack, List.foldl_nil]
    apply eq_of_isFree
    · rw [ht.inv.length_bitmap, h0.length_bitmap, ht.totalPages_eq]
    · exact ht.baseAddr_eq
    · exact ht.totalPages_eq
    · simpa using ht.freePages_eq
    · exact hhint
    · intro j
      simp [ht.isFree_eq]
  | cons p pages ih =>
    rw [ht.frames_eq, List.map_cons]
    obtain ⟨hp, hnodup⟩ := List.nodup_cons.mp ht.nodup
    have hfree0 := ht.free_before p List.mem_cons_self
    have hlt : p < a.totalPages := ht.totalPages_eq ▸ h0.lt_of_isFree hfree0
    have hpage : (a0.frameOf p - a.baseAddr) / pageSize = p := by
      rw [frameOf, ht.baseAddr_eq, Nat.add_sub_cancel_left, Nat.mul_div_cancel _ (by decide)]
    -- giving back the first page leaves the others taken
    have ht' : Taken a0 (a.releasePage p) pages (pages.map a0.frameOf) := by
      have hused : a.isFree p = false := by simp [ht.isFree_eq]
      refine ⟨ht.inv.releasePage hlt hused, ht.baseAddr_eq, ht.totalPages_eq, fun j => ?_, ?_,
        hnodup, fun q hq => ht.free_before q (List.mem_cons_of_mem p hq), rfl⟩
      · rw [isFree_releasePage, ht.isFree_eq]
        by_cases hj : j = p
        · subst hj
          simp [hfree0, hp, ht.inv.div_lt_length hlt]
        · simp [hj]
      · simp only [releasePage_freePages]
        have := ht.freePages_eq
        simp only [List.length_cons] at this
        omega
    simp only [rollBack, List.foldl_cons]
    rw [hpage]
    exact ih ht' hhint

theorem allocPages_totalPages (h : a.Inv) (count : Nat) :
    (a.allocPages count).2.totalPages = a.totalPages := by
  unfold BitmapAllocator.allocPages
  split_ifs
  · rfl
  · rfl
  · split
    · rename_i a1 r1 hr
      obtain ⟨_, ht, -⟩ := takeWords_inl (Taken.start h) hr
      exact ht.totalPages_eq
    · rename_i a1 r1 hr
      obtain ⟨_, ht, hhint⟩ := takeWords_inr (Taken.start h) hr
      rw [rollBack_eq h ht hhint]

theorem Inv.allocPages (h : a.Inv) (count : Nat) : (a.allocPages count).2.Inv := by
  unfold BitmapAllocator.allocPages
  split_ifs
  · exact h
  · exact h
  · split
    · rename_i a1 r1 hr
      obtain ⟨_, ht, -⟩ := takeWords_inl (Taken.start h) hr
      exact ht.inv
    · rename_i a1 r1 hr
      obtain ⟨_, ht, hhint⟩ := takeWords_inr (Taken.start h) hr
      rw [rollBack_eq h ht hhint]
      exact h

/-- `alloc_pages` returns `count` distinct frames of pages that were free,
and takes exactly those. -/
theorem allocPages_some (h : a.Inv) {frames : List Nat}
    (hs : a.allocPages count = (some frames, a')) :
    ∃ pages : List Nat, frames = pages.map a.frameOf ∧ pages.length = count ∧ pages.Nodup ∧
      (∀ p ∈ pages, p < a.totalPages ∧ a.isFree p = true) ∧
      ∀ j, a'.isFree j = (a.isFree j && decide (j ∉ pages)) := by
  unfold BitmapAllocator.allocPages at hs
  split_ifs at hs with h0 hlt
  · simp only [Prod.mk.injEq, Option.some.injEq] at hs
    obtain ⟨rfl, rfl⟩ := hs
    exact ⟨[], rfl, h0.symm, List.nodup_nil, by simp, by simp⟩
  · cases hs
  · split at hs
    · rename_i a1 r1 hr
      simp only [Prod.mk.injEq, Option.some.injEq] at hs
      obtain ⟨rfl, rfl⟩ := hs
      obtain ⟨pages, ht, hlen⟩ := takeWords_inl (Taken.start h) hr
      refine ⟨pages, ht.frames_eq, ?_, ht.nodup,
        fun p hp => ⟨h.lt_of_isFree (ht.free_before p hp), ht.free_before p hp⟩, ht.isFree_eq⟩
      rw [← hlen, ht.frames_eq, List.length_map]
    · cases hs

/-- A failed `alloc_pages` leaves the state as it was. -/
theorem allocPages_none (h : a.Inv) (hs : a.allocPages count = (none, a')) : a' = a := by
  unfold BitmapAllocator.allocPages at hs
  split_ifs at hs
  · cases hs
  · simp only [Prod.mk.injEq, true_and] at hs
    exact hs.symm
  · split at hs
    · cases hs
    · rename_i a1 r1 hr
      simp only [Prod.mk.injEq, true_and] at hs
      obtain ⟨_, ht, hhint⟩ := takeWords_inr (Taken.start h) hr
      rw [← hs, rollBack_eq h ht hhint]

end AllocPages

/-! ## `alloc_pages_contiguous` -/

/-- What the page scan of `alloc_pages_contiguous` keeps before page `q`: the
run it counts, when not empty, is the free pages `[runStart, q)`. -/
def RunEndsAt (q runStart runLen : Nat) : Prop :=
  runLen = 0 ∨ (runStart + runLen = q ∧ ∀ j, runStart ≤ j → j < q → a.isFree j = true)

section Contiguous

variable {a a' : BitmapAllocator} {count : Nat}

theorem RunEndsAt.le {q rs rl : Nat} (h : a.RunEndsAt q rs rl) : rl ≤ q := by
  rcases h with h | ⟨h, -⟩ <;> omega

/-- A free page at `q` extends the run. -/
theorem RunEndsAt.extend {q rs rl : Nat} (h : a.RunEndsAt q rs rl) (hq : a.isFree q = true) :
    a.RunEndsAt (q + 1) (if rl = 0 then q else rs) (rl + 1) := by
  refine Or.inr ⟨?_, fun j hj hjq => ?_⟩
  · split_ifs with h0
    · omega
    · rcases h with h | ⟨h, -⟩ <;> omega
  · by_cases hjq' : j = q
    · exact hjq' ▸ hq
    · split_ifs at hj with h0
      · omega
      · rcases h with h | ⟨-, hrun⟩
        · exact absurd h h0
        · exact hrun j hj (by omega)

theorem findRun_cons (p : Nat) (ps : List Nat) (rs rl : Nat) :
    a.findRun count (p :: ps) rs rl =
      if a.isFree p then
        if rl + 1 = count then some (if rl = 0 then p else rs)
        else a.findRun count ps (if rl = 0 then p else rs) (rl + 1)
      else a.findRun count ps rs 0 := rfl

/-- The scan returns the start of a run of `count` free pages inside the
pages it scans. -/
theorem findRun_sound {q m rs rl s : Nat} (hrun : a.RunEndsAt q rs rl)
    (h : a.findRun count (List.range' q m) rs rl = some s) :
    s + count ≤ q + m ∧ ∀ j, s ≤ j → j < s + count → a.isFree j = true := by
  induction m generalizing q rs rl with
  | zero => simp [findRun] at h
  | succ m ih =>
    rw [List.range'_succ, findRun_cons] at h
    split at h
    · rename_i hq
      split at h
      · -- the run is complete at page `q`
        rename_i hc
        rw [Option.some.injEq] at h
        rcases hrun.extend hq with h0 | ⟨hend, hfree⟩
        · omega
        · rw [h] at hend hfree
          exact ⟨by omega, fun j hj hjs => hfree j hj (by omega)⟩
      · obtain ⟨hle, hfree⟩ := ih (hrun.extend hq) h
        exact ⟨by omega, hfree⟩
    · obtain ⟨hle, hfree⟩ := ih (Or.inl rfl) h
      exact ⟨by omega, hfree⟩

/-- The scan finds a run whenever one lies in what it still has to scan,
possibly beginning in the run it is counting. -/
theorem findRun_complete {q m rs rl s : Nat} (hcount : 0 < count) (hrun : a.RunEndsAt q rs rl)
    (hrl : rl < count) (hs : q - rl ≤ s) (hsm : s + count ≤ q + m)
    (hfree : ∀ j, s ≤ j → j < s + count → a.isFree j = true) :
    a.findRun count (List.range' q m) rs rl ≠ none := by
  induction m generalizing q rs rl with
  | zero =>
    have := hrun.le
    omega
  | succ m ih =>
    have hle := hrun.le
    rw [List.range'_succ, findRun_cons]
    split
    · rename_i hq
      split
      · simp
      · exact ih (hrun.extend hq) (by omega) (by omega) (by omega)
    · -- a used page at `q` lies before the run, which starts after it
      rename_i hq
      have hqs : q < s := by
        by_contra hn
        exact hq (hfree q (by omega) (by omega))
      exact ih (Or.inl rfl) hcount (by omega) (by omega)

/-- No run in the whole bitmap escapes the scan from page 0. -/
theorem findRun_range_ne_none (hcount : 0 < count) {s : Nat} (hs : s + count ≤ a.totalPages)
    (hfree : ∀ j, s ≤ j → j < s + count → a.isFree j = true) :
    a.findRun count (List.range a.totalPages) 0 0 ≠ none := by
  rw [List.range_eq_range']
  exact findRun_complete hcount (Or.inl rfl) hcount (by omega) (by omega) hfree

/-- Marking a run used. -/
theorem isFree_foldl_markUsed (l : List Nat) (j : Nat) :
    (l.foldl markUsed a).isFree j = (a.isFree j && decide (j ∉ l)) := by
  rw [foldl_markUsed]
  exact WordBitmap.test_foldl_clear a.bitmap l j

/-- Taking a run of free pages keeps the invariant. -/
theorem Inv.takeRun (h : a.Inv) {s : Nat} (hs : s + count ≤ a.totalPages)
    (hfree : ∀ j, s ≤ j → j < s + count → a.isFree j = true) :
    { (List.range' s count).foldl markUsed a with
      freePages := a.freePages - count, nextFreeHint := s + count }.Inv := by
  have hrun : ∀ p ∈ List.range' s count, p < a.totalPages ∧ WordBitmap.test a.bitmap p = true := by
    intro p hp
    rw [List.mem_range'_1] at hp
    exact ⟨by omega, hfree p hp.1 hp.2⟩
  have hc := WordBitmap.count_foldl_clear List.nodup_range' hrun
  rw [List.length_range'] at hc
  refine ⟨?_, fun i hi => ?_, ?_, ?_⟩
  · simpa [foldl_markUsed] using h.length_bitmap
  · have hi' : a.totalPages ≤ i := by simpa [foldl_markUsed] using hi
    change ((List.range' s count).foldl markUsed a).isFree i = false
    rw [isFree_foldl_markUsed, h.clear_above i hi', Bool.false_and]
  · simp only [foldl_markUsed, h.freePages_eq]
    omega
  · simpa [foldl_markUsed] using hs

@[simp] theorem allocPagesContiguous_totalPages (count : Nat) :
    (a.allocPagesContiguous count).2.totalPages = a.totalPages := by
  unfold BitmapAllocator.allocPagesContiguous
  split_ifs
  · rfl
  · exact allocPage_totalPages
  · rfl
  · dsimp only
    split
    · simp [foldl_markUsed]
    · rfl

theorem Inv.allocPagesContiguous (h : a.Inv) (count : Nat) :
    (a.allocPagesContiguous count).2.Inv := by
  unfold BitmapAllocator.allocPagesContiguous
  split_ifs with h0 h1 hlt
  · exact h
  · exact h.allocPage
  · exact h
  · dsimp only
    split
    · rename_i s hfound
      -- both passes scan pages below `total_pages`
      have hsound : s + count ≤ a.totalPages ∧
          ∀ j, s ≤ j → j < s + count → a.isFree j = true := by
        split at hfound
        · cases hfound
          rename_i s' hs'
          obtain ⟨hle, hfree⟩ := findRun_sound (Or.inl rfl) hs'
          exact ⟨by have := h.hint_le; omega, hfree⟩
        · split at hfound
          · cases hfound
          · rw [List.range_eq_range'] at hfound
            obtain ⟨hle, hfree⟩ := findRun_sound (Or.inl rfl) hfound
            exact ⟨by omega, hfree⟩
      exact h.takeRun hsound.1 hsound.2
    · exact h

/-- `alloc_pages_contiguous` takes a run of pages that were free, and only
that run. -/
theorem allocPagesContiguous_some (h : a.Inv) {f : Nat}
    (hs : a.allocPagesContiguous count = (some f, a')) :
    ∃ s, s + count ≤ a.totalPages ∧ (∀ j, s ≤ j → j < s + count → a.isFree j = true) ∧
      f = a.frameOf s ∧ ∀ j, a'.isFree j = (a.isFree j && !decide (s ≤ j ∧ j < s + count)) := by
  unfold BitmapAllocator.allocPagesContiguous at hs
  split_ifs at hs with h0 h1 hlt
  · cases hs
  · -- one page: `alloc_page`
    subst h1
    obtain ⟨i, hi, hfree, hf, hbits⟩ := allocPage_some hs
    refine ⟨i, hi, fun j hj hj' => by rwa [show j = i by omega], hf, fun j => ?_⟩
    rw [hbits j]
    by_cases hj : j = i <;> simp [hj]
  · cases hs
  · dsimp only at hs
    split at hs
    · rename_i s hfound
      simp only [Prod.mk.injEq, Option.some.injEq] at hs
      obtain ⟨rfl, rfl⟩ := hs
      have hsound : s + count ≤ a.totalPages ∧
          ∀ j, s ≤ j → j < s + count → a.isFree j = true := by
        split at hfound
        · cases hfound
          rename_i s' hs'
          obtain ⟨hle, hfree⟩ := findRun_sound (Or.inl rfl) hs'
          exact ⟨by have := h.hint_le; omega, hfree⟩
        · split at hfound
          · cases hfound
          · rw [List.range_eq_range'] at hfound
            obtain ⟨hle, hfree⟩ := findRun_sound (Or.inl rfl) hfound
            exact ⟨by omega, hfree⟩
      refine ⟨s, hsound.1, hsound.2, rfl, fun j => ?_⟩
      change ((List.range' s count).foldl markUsed a).isFree j = _
      rw [isFree_foldl_markUsed]
      by_cases hj : s ≤ j ∧ j < s + count <;> simp [hj, List.mem_range'_1]
    · cases hs

/-- `alloc_pages_contiguous` fails only for a count of zero or when no run of
`count` free pages exists, and then changes nothing. -/
theorem allocPagesContiguous_none (h : a.Inv)
    (hs : a.allocPagesContiguous count = (none, a')) :
    a' = a ∧ (count = 0 ∨
      ¬∃ s, s + count ≤ a.totalPages ∧ ∀ j, s ≤ j → j < s + count → a.isFree j = true) := by
  unfold BitmapAllocator.allocPagesContiguous at hs
  split_ifs at hs with h0 h1 hlt
  · simp only [Prod.mk.injEq, true_and] at hs
    exact ⟨hs.symm, Or.inl h0⟩
  · -- one page: `alloc_page` fails only with no free page at all
    subst h1
    obtain ⟨rfl, hnone⟩ := allocPage_none h hs
    refine ⟨rfl, Or.inr fun ⟨s, _, hfree⟩ => ?_⟩
    have hs := hfree s le_rfl (by omega)
    rw [hnone s] at hs
    exact Bool.false_ne_true hs
  · -- fewer free pages than `count`: a run would be counted
    simp only [Prod.mk.injEq, true_and] at hs
    refine ⟨hs.symm, Or.inr fun ⟨s, hs', hfree⟩ => ?_⟩
    have hrun : ∀ p ∈ List.range' s count, p < a.totalPages ∧ WordBitmap.test a.bitmap p = true := by
      intro p hp
      rw [List.mem_range'_1] at hp
      exact ⟨by omega, hfree p hp.1 hp.2⟩
    have hc := WordBitmap.count_foldl_clear List.nodup_range' hrun
    rw [List.length_range'] at hc
    rw [h.freePages_eq] at hlt
    omega
  · dsimp only at hs
    split at hs
    · cases hs
    · rename_i hfound
      simp only [Prod.mk.injEq, true_and] at hs
      refine ⟨hs.symm, Or.inr fun ⟨s, hs', hfree⟩ => ?_⟩
      have hc : 0 < count := by omega
      split at hfound
      · cases hfound
      · rename_i hfirst
        split at hfound
        · -- the pass from the hint started at 0
          rename_i hhint
          rw [hhint, Nat.sub_zero] at hfirst
          exact findRun_complete hc (Or.inl rfl) hc (by omega) (by omega) hfree hfirst
        · exact findRun_range_ne_none hc hs' hfree hfound

end Contiguous

/-! ## Freeing -/

section Free

variable {a : BitmapAllocator}

/-- One round of `free_pages_contiguous`. -/
def freeRound (a : BitmapAllocator) (pageIdx : Nat) : BitmapAllocator :=
  if pageIdx < a.totalPages ∧ a.isFree pageIdx = false then a.releasePage pageIdx else a

theorem Inv.freeRound (h : a.Inv) (p : Nat) : (a.freeRound p).Inv := by
  unfold BitmapAllocator.freeRound
  split_ifs with hp
  · exact h.releasePage hp.1 hp.2
  · exact h

@[simp] theorem freeRound_totalPages (p : Nat) : (a.freeRound p).totalPages = a.totalPages := by
  unfold freeRound; split_ifs <;> rfl

@[simp] theorem freeRound_nextFreeHint (p : Nat) :
    (a.freeRound p).nextFreeHint = a.nextFreeHint := by
  unfold freeRound; split_ifs <;> rfl

theorem Inv.foldl_freeRound (h : a.Inv) (g : Nat → Nat) (l : List Nat) :
    (l.foldl (fun a i => BitmapAllocator.freeRound a (g i)) a).Inv := by
  induction l generalizing a with
  | nil => exact h
  | cons p l ih => exact ih (h.freeRound (g p))

theorem foldl_freeRound_nextFreeHint (g : Nat → Nat) (l : List Nat) :
    (l.foldl (fun a i => a.freeRound (g i)) a).nextFreeHint = a.nextFreeHint := by
  induction l generalizing a with
  | nil => rfl
  | cons p l ih => rw [List.foldl_cons, ih, freeRound_nextFreeHint]

theorem Inv.freePagesContiguous (h : a.Inv) (frame count : Nat) :
    (a.freePagesContiguous frame count).Inv := by
  unfold BitmapAllocator.freePagesContiguous
  split_ifs with hb
  · exact h
  · -- the rounds are `freeRound` at the pages of the range
    have h' := h.foldl_freeRound ((frame - a.baseAddr) / pageSize + ·) (List.range count)
    dsimp only
    split_ifs with hs
    · exact h'.withHint (le_of_lt (lt_of_lt_of_le hs h'.hint_le))
    · exact h'

@[simp] theorem freePage_totalPages (frame : Nat) :
    (a.freePage frame).2.totalPages = a.totalPages := by
  unfold BitmapAllocator.freePage
  dsimp only
  split_ifs <;> rfl

@[simp] theorem freePage_baseAddr (frame : Nat) :
    (a.freePage frame).2.baseAddr = a.baseAddr := by
  unfold BitmapAllocator.freePage
  dsimp only
  split_ifs <;> rfl

/-- A page that is freed adds one to the free count. -/
theorem freePage_freePages_of_freed {frame : Nat} (h : (a.freePage frame).1 = .freed) :
    (a.freePage frame).2.freePages = a.freePages + 1 := by
  unfold BitmapAllocator.freePage at h ⊢
  dsimp only at h ⊢
  split_ifs at h ⊢ <;> rfl

theorem Inv.freePage (h : a.Inv) (frame : Nat) : (a.freePage frame).2.Inv := by
  unfold BitmapAllocator.freePage
  dsimp only
  split_ifs with hb hp hf hh
  · exact h
  · exact h
  · exact h
  · exact (h.releasePage (by omega) (by simpa using hf)).withHint
      (by have := h.hint_le; simp only [releasePage_totalPages]; omega)
  · exact h.releasePage (by omega) (by simpa using hf)

/-- `free_page` frees exactly a used page inside the bitmap, and refuses
every other frame without a change. -/
theorem freePage_spec (frame : Nat) :
    ((a.freePage frame).1 = .freed ↔ a.baseAddr ≤ frame ∧
        (frame - a.baseAddr) / pageSize < a.totalPages ∧
        a.isFree ((frame - a.baseAddr) / pageSize) = false) ∧
      ((a.freePage frame).1 ≠ .freed → (a.freePage frame).2 = a) := by
  unfold BitmapAllocator.freePage
  dsimp only
  split_ifs with hb hp hf hh <;> simp_all

/-- `free_page` frees at most the page of `frame`. -/
theorem isFree_freePage {frame i : Nat} (h : (a.freePage frame).2.isFree i = true) :
    a.isFree i = true ∨ i = (frame - a.baseAddr) / pageSize := by
  unfold BitmapAllocator.freePage at h
  dsimp only at h
  split_ifs at h with hb hp hf hh
  · exact .inl h
  · exact .inl h
  · exact .inl h
  all_goals
    -- the page released: its bit is the only one that can change, whatever the hint
    change (a.releasePage ((frame - a.baseAddr) / pageSize)).isFree i = true at h
    rw [isFree_releasePage, Bool.or_eq_true, decide_eq_true_eq] at h
    rcases h with h | ⟨rfl, -⟩
    · exact .inl h
    · exact .inr rfl

end Free

/-! ## Runs -/

/-- The operations of the allocator. -/
inductive Op where
  | allocPage
  | allocPages (count : Nat)
  | allocPagesContiguous (count : Nat)
  | freePage (frame : Nat)
  | freePagesContiguous (frame count : Nat)
  deriving DecidableEq, Repr

/-- The state after one operation. -/
def Op.apply (a : BitmapAllocator) : Op → BitmapAllocator
  | .allocPage => a.allocPage.2
  | .allocPages count => (a.allocPages count).2
  | .allocPagesContiguous count => (a.allocPagesContiguous count).2
  | .freePage frame => (a.freePage frame).2
  | .freePagesContiguous frame count => a.freePagesContiguous frame count

/-- The state after a sequence of operations. -/
def run (a : BitmapAllocator) (ops : List Op) : BitmapAllocator :=
  ops.foldl Op.apply a

theorem Inv.apply {a : BitmapAllocator} (h : a.Inv) : ∀ op : Op, (op.apply a).Inv
  | .allocPage => h.allocPage
  | .allocPages count => h.allocPages count
  | .allocPagesContiguous count => h.allocPagesContiguous count
  | .freePage frame => h.freePage frame
  | .freePagesContiguous frame count => h.freePagesContiguous frame count

theorem Inv.run {a : BitmapAllocator} (h : a.Inv) (ops : List Op) : (a.run ops).Inv := by
  induction ops generalizing a with
  | nil => exact h
  | cons op ops ih => exact ih (h.apply op)

/-- What every operation does from a state: each frame handed out is a page
that was free, a failed allocation changes nothing and fails only for want
of free pages, and `free_page` frees exactly a used page. -/
structure Behaves (a : BitmapAllocator) : Prop where
  allocPage_some : ∀ f a', a.allocPage = (some f, a') →
    ∃ i < a.totalPages, a.isFree i = true ∧ f = a.frameOf i ∧
      ∀ j, a'.isFree j = (a.isFree j && decide (j ≠ i))
  allocPage_none : ∀ a', a.allocPage = (none, a') → a' = a ∧ ∀ i, a.isFree i = false
  allocPages_some : ∀ count frames a', a.allocPages count = (some frames, a') →
    ∃ pages : List Nat, frames = pages.map a.frameOf ∧ pages.length = count ∧ pages.Nodup ∧
      (∀ p ∈ pages, p < a.totalPages ∧ a.isFree p = true) ∧
      ∀ j, a'.isFree j = (a.isFree j && decide (j ∉ pages))
  allocPages_none : ∀ count a', a.allocPages count = (none, a') → a' = a
  allocPagesContiguous_some : ∀ count f a', a.allocPagesContiguous count = (some f, a') →
    ∃ s, s + count ≤ a.totalPages ∧ (∀ j, s ≤ j → j < s + count → a.isFree j = true) ∧
      f = a.frameOf s ∧ ∀ j, a'.isFree j = (a.isFree j && !decide (s ≤ j ∧ j < s + count))
  allocPagesContiguous_none : ∀ count a', a.allocPagesContiguous count = (none, a') →
    a' = a ∧ (count = 0 ∨
      ¬∃ s, s + count ≤ a.totalPages ∧ ∀ j, s ≤ j → j < s + count → a.isFree j = true)
  freePage : ∀ frame,
    ((a.freePage frame).1 = .freed ↔ a.baseAddr ≤ frame ∧
        (frame - a.baseAddr) / pageSize < a.totalPages ∧
        a.isFree ((frame - a.baseAddr) / pageSize) = false) ∧
      ((a.freePage frame).1 ≠ .freed → (a.freePage frame).2 = a)

theorem Inv.behaves {a : BitmapAllocator} (h : a.Inv) : a.Behaves where
  allocPage_some _ _ hs := allocPage_some hs
  allocPage_none _ hs := allocPage_none h hs
  allocPages_some _ _ _ hs := allocPages_some h hs
  allocPages_none _ _ hs := allocPages_none h hs
  allocPagesContiguous_some _ _ _ hs := allocPagesContiguous_some h hs
  allocPagesContiguous_none _ _ hs := allocPagesContiguous_none h hs
  freePage frame := freePage_spec frame

/-- After `init` with the kernel ending inside the whole pages the bitmap
counts, and after any sequence of operations, the allocator keeps its
invariant and each operation behaves. -/
theorem init_run_behaves (base size kernelEnd : Nat) (hsize : size < 2 ^ 64)
    (hkernel : kernelEnd ≤ base + size / pageSize * pageSize) (ops : List Op) :
    ((init base size kernelEnd).run ops).Inv ∧ ((init base size kernelEnd).run ops).Behaves :=
  let h := (init_inv hsize hkernel).run ops
  ⟨h, h.behaves⟩

theorem init_run_behaves_on_eight_pages :
    (0x8000 : Nat) < 2 ^ 64 ∧ 0x4000_2000 ≤ 0x4000_0000 + 0x8000 / pageSize * pageSize ∧
      ((init 0x4000_0000 0x8000 0x4000_2000).run [.allocPages 3, .freePage 0x4000_3000]).Inv ∧
      ((init 0x4000_0000 0x8000 0x4000_2000).run [.allocPages 3, .freePage 0x4000_3000]).Behaves :=
  ⟨by decide, by decide,
    init_run_behaves 0x4000_0000 0x8000 0x4000_2000 (by decide) (by decide) _⟩

/-- A kernel that ends in the partial page past the last whole page: `init`
counts that page as a kernel page of the bitmap, leaves the hint past
`total_pages`, and the free count wraps below zero while no page is free. -/
theorem init_kernel_in_partial_page :
    (init 0x4000_0000 0x1001 0x4000_1001).totalPages = 1 ∧
      (init 0x4000_0000 0x1001 0x4000_1001).nextFreeHint = 2 ∧
      (init 0x4000_0000 0x1001 0x4000_1001).freePages = 2 ^ 64 - 1 ∧
      WordBitmap.count (init 0x4000_0000 0x1001 0x4000_1001).bitmap 1 = 0 := by
  decide +kernel

end BitmapAllocator

end Akuma.Pmm
