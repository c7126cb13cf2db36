import Akuma.Syscall.Mmap

/-!
# `munmap`

`sys_munmap` of `syscall/mem.rs` on the state `sys_mmap` builds. It tries
three strategies, in order:

* an eager region that starts exactly at `addr`: the whole region, or its
  first pages, are detached, and their frames unmapped and freed;
* otherwise the lazy regions overlapping the range are cut
  (`munmap_lazy_regions_in_range`), and every page of each cut that is
  mapped is unmapped and freed;
* otherwise each page of the range is unmapped and freed, unless it lies
  inside an eager region.

A frame is given to `free_page` only when `remove_user_frame` reports that
the address space dropped its last reference to it. Here `free_page` puts
the frame back at the head of the machine's free list. Writing shared file
pages back to their file is left out, but the `SHARED_FILE_MAPPINGS` entry
is still removed.
-/

namespace Akuma.Syscall

open Akuma.Mmu

/-! ## The cuts of the lazy regions -/

/-- The `(freed_start, freed_pages)` that `munmap_lazy_region_overlapping`
reports for the cut it makes. -/
def munmapLazyRegionFreed (rangeStart rangeEnd : Nat) (regions : List LazyRegion) :
    Option (Nat × Nat) :=
  (regions.find? (fun r => r.startVa < rangeEnd ∧ wrap (r.startVa + r.size) > rangeStart)).map fun r =>
    let regEnd := wrap (r.startVa + r.size)
    let clipStart := max rangeStart r.startVa
    let clipEnd := min rangeEnd regEnd
    if clipStart = r.startVa ∧ clipEnd = regEnd then (r.startVa, r.size / 4096)
    else if clipStart = r.startVa then (clipStart, (clipEnd - clipStart) / 4096)
    else if clipEnd = regEnd then (clipStart, (regEnd - clipStart) / 4096)
    else (clipStart, (clipEnd - clipStart) / 4096)

/-- `munmap_lazy_regions_in_range` with the cuts it reports, one per region
it cut. -/
def munmapLazyRegionsInRangeResults (unmapAddr unmapLen : Nat) (regions : List LazyRegion) :
    List LazyRegion × List (Nat × Nat) :=
  go (regions.length + 1) regions
where
  go : Nat → List LazyRegion → List LazyRegion × List (Nat × Nat)
    | 0, rs => (rs, [])
    | fuel + 1, rs =>
      match munmapLazyRegionOverlapping unmapAddr (wrap (unmapAddr + unmapLen)) rs,
        munmapLazyRegionFreed unmapAddr (wrap (unmapAddr + unmapLen)) rs with
      | some rs', some freed => ((go fuel rs').1, freed :: (go fuel rs').2)
      | _, _ => (rs, [])

/-! ## The page loops -/

/-- The loop of the eager strategy over the detached frames: unmap page `i`
and free its frame when that dropped the last reference. -/
def unmapEagerFrames (base : Nat) : Nat → List Nat → UserAddressSpace × Machine → UserAddressSpace × Machine
  | _, [], sm => sm
  | i, frame :: frames, (s, m) =>
    let m := s.unmapPageNoFlush m (wrap (base + i * 4096))
    let removed := s.removeUserFrame frame
    unmapEagerFrames base (i + 1) frames (removed.2, if removed.1 then freePage m frame else m)

/-- `unmap_and_free_page_no_flush` at `va`, then `free_page` of the frame it
returns; and whether there was one. -/
def unmapFreePage (sm : UserAddressSpace × Machine) (va : Nat) : (UserAddressSpace × Machine) × Bool :=
  match sm.1.unmapAndFreePageNoFlush sm.2 va with
  | (some frame, s, m) => ((s, freePage m frame), true)
  | (none, s, m) => ((s, m), false)

/-- The pages `start, start + 4096, …` of one lazy cut; the flag says
whether a physical page was freed (`had_physical`). -/
def unmapFreePages (start : Nat) : Nat → UserAddressSpace × Machine → (UserAddressSpace × Machine) × Bool
  | 0, sm => (sm, false)
  | n + 1, sm =>
    let prev := unmapFreePages start n sm
    let step := unmapFreePage prev.1 (wrap (start + n * 4096))
    (step.1, prev.2 || step.2)

/-- `va` lies inside an eager region. -/
def inEager (regions : List (Nat × List Nat)) (va : Nat) : Bool :=
  regions.any fun (start, frames) => start ≤ va ∧ va < start + frames.length * 4096

/-- The fallback loop: every page of the range outside the eager regions. -/
def unmapFallback (regions : List (Nat × List Nat)) (addr : Nat) :
    Nat → UserAddressSpace × Machine → UserAddressSpace × Machine
  | 0, sm => sm
  | n + 1, sm =>
    let sm := unmapFallback regions addr n sm
    let va := wrap (addr + n * 4096)
    if inEager regions va then sm else (unmapFreePage sm va).1

/-- The lazy strategy over its cuts, each with the page loop and, when it
freed a page, the range pushed onto `free_regions`. -/
def unmapLazyCuts : List (Nat × Nat) → UserAddressSpace × Machine × List (Nat × Nat) →
    UserAddressSpace × Machine × List (Nat × Nat)
  | [], acc => acc
  | (freedStart, freedPages) :: cuts, (s, m, freeRegions) =>
    let r := unmapFreePages freedStart freedPages (s, m)
    unmapLazyCuts cuts
      (r.1.1, r.1.2, if r.2 then freeRegions ++ [(freedStart, wrap (freedPages * 4096))] else freeRegions)

/-! ## `sys_munmap` -/

/-- `unmap_len`: the length rounded up to whole pages, one page for 0. -/
def unmapLen (len : Nat) : Nat := if len > 0 then wrap (len + 4095) &&& (2 ^ 64 - 1 - 4095) else 4096

/-- `sys_munmap` of the calling process. -/
def sysMunmap (st : MmapState) (addr len : Nat) : Nat × MmapState :=
  let unmapPages := unmapLen len / 4096
  match st.mmapRegions.findIdx? (·.1 = addr) with
  | some idx =>
    -- an eager region starting at `addr`: all of it, or its first pages
    let old := st.mmapRegions.getD idx (0, [])
    let others := st.mmapRegions.eraseIdx idx
    -- the regions left, the base address and the frames to unmap
    let detached : List (Nat × List Nat) × Nat × List Nat :=
      if unmapPages ≥ old.2.length then (others, addr, old.2)
      else
        let remaining := old.2.drop unmapPages
        (if remaining = [] then others
          else others ++ [(wrap (old.1 + unmapPages * 4096), remaining)],
          old.1, old.2.take unmapPages)
    let r := unmapEagerFrames detached.2.1 0 detached.2.2 (st.space, st.machine)
    (0, { st with
      mmapRegions := detached.1
      sharedFileMappings := st.sharedFileMappings.filter (·.base ≠ detached.2.1)
      space := r.1
      machine := r.2
      memory := { st.memory with
        freeRegions := st.memory.freeRegions ++ [(addr, wrap (detached.2.2.length * 4096))] } })
  | none =>
    let lazy := munmapLazyRegionsInRangeResults addr (unmapLen len) st.lazyRegions
    if lazy.2 ≠ [] then
      let r := unmapLazyCuts lazy.2 (st.space, st.machine, st.memory.freeRegions)
      (0, { st with
        lazyRegions := lazy.1
        space := r.1
        machine := r.2.1
        memory := { st.memory with freeRegions := r.2.2 } })
    else
      let r := unmapFallback st.mmapRegions addr unmapPages (st.space, st.machine)
      (0, { st with space := r.1, machine := r.2 })

/-! ## What `munmap` frees -/

section Frees

/-- Between the address space and machine `(s₀, m₀)` and `sm`, frames were
only untracked, and some of them freed. The freed frames sit at the head of
the free list, each once. Each was tracked by `s₀` and is no longer tracked
by `sm.1`. -/
def FreesUntracked (s₀ : UserAddressSpace) (m₀ : Machine) (sm : UserAddressSpace × Machine) : Prop :=
  sm.1.userFrames ⊆ s₀.userFrames ∧
    ∃ fs, sm.2.free = fs ++ m₀.free ∧ fs.Nodup ∧ ∀ f ∈ fs, f ∈ s₀.userFrames ∧ f ∉ sm.1.userFrames

variable {s₀ s s' : UserAddressSpace} {m₀ m m' : Machine}

theorem FreesUntracked.refl : FreesUntracked s₀ m₀ (s₀, m₀) :=
  ⟨fun _ h => h, [], rfl, List.nodup_nil, fun _ h => absurd h List.not_mem_nil⟩

/-- Untracking frames without freeing any. -/
theorem FreesUntracked.untrack (h : FreesUntracked s₀ m₀ (s, m)) (hsub : s'.userFrames ⊆ s.userFrames)
    (hfree : m'.free = m.free) : FreesUntracked s₀ m₀ (s', m') := by
  obtain ⟨hs, fs, hm, hnd, hfs⟩ := h
  refine ⟨fun _ hf => hs (hsub hf), fs, hfree.trans hm, hnd, fun f hf => ⟨(hfs f hf).1, ?_⟩⟩
  exact fun hf' => (hfs f hf).2 (hsub hf')

/-- Freeing a frame that was tracked until this step and is not any more. -/
theorem FreesUntracked.free {f : Nat} (h : FreesUntracked s₀ m₀ (s, m)) (hin : f ∈ s.userFrames)
    (hsub : s'.userFrames ⊆ s.userFrames) (hout : f ∉ s'.userFrames) :
    FreesUntracked s₀ m₀ (s', freePage m f) := by
  obtain ⟨hs, fs, hm, hnd, hfs⟩ := h
  dsimp only at hs hm hfs
  refine ⟨fun _ hg => hs (hsub hg), f :: fs, by simp [freePage, hm], ?_, ?_⟩
  · -- every frame freed before was already untracked, `f` was not
    exact List.nodup_cons.mpr ⟨fun hf => (hfs f hf).2 hin, hnd⟩
  · intro g hg
    rcases List.mem_cons.mp hg with rfl | hg
    · exact ⟨hs hin, hout⟩
    · exact ⟨(hfs g hg).1, fun hg' => (hfs g hg).2 (hsub hg')⟩

theorem removeUserFrame_subset (f : Nat) : (s.removeUserFrame f).2.userFrames ⊆ s.userFrames := by
  unfold UserAddressSpace.removeUserFrame
  split_ifs
  · exact List.erase_subset
  · exact fun _ h => h

theorem removeUserFrame_last {f : Nat} (h : (s.removeUserFrame f).1 = true) :
    f ∈ s.userFrames ∧ f ∉ (s.removeUserFrame f).2.userFrames := by
  unfold UserAddressSpace.removeUserFrame at h ⊢
  by_cases hf : f ∈ s.userFrames
  · rw [if_pos hf] at h ⊢
    exact ⟨hf, by simpa using h⟩
  · rw [if_neg hf] at h
    cases h

theorem free_unmapPageNoFlush (va : Nat) : (s.unmapPageNoFlush m va).free = m.free := by
  unfold UserAddressSpace.unmapPageNoFlush
  split <;> rfl

/-- What `unmap_and_free_page_no_flush` does to the tracked frames and the
free list: it untracks at most one reference, frees nothing itself, and
returns a frame only when it untracked its last reference. -/
theorem unmapAndFreePageNoFlush_spec {va : Nat} {r : Option Nat}
    (h : s.unmapAndFreePageNoFlush m va = (r, s', m')) :
    s'.userFrames ⊆ s.userFrames ∧ m'.free = m.free ∧
      ∀ pa, r = some pa → pa ∈ s.userFrames ∧ pa ∉ s'.userFrames := by
  unfold UserAddressSpace.unmapAndFreePageNoFlush at h
  split at h
  · cases h
    exact ⟨fun _ h => h, rfl, fun _ h => by cases h⟩
  dsimp only at h
  split at h
  · cases h
    exact ⟨fun _ h => h, rfl, fun _ h => by cases h⟩
  -- a valid descriptor: one reference to its frame is dropped
  rename_i slot _ _
  rcases hr : s.removeUserFrame (tableAddr (m.mem slot)) with ⟨last, s''⟩
  rw [hr] at h
  simp only [Prod.mk.injEq] at h
  obtain ⟨rfl, rfl, rfl⟩ := h
  have hsub := removeUserFrame_subset (s := s) (tableAddr (m.mem slot))
  rw [hr] at hsub
  refine ⟨hsub, rfl, fun pa hpa => ?_⟩
  cases last
  · cases hpa
  · cases hpa
    have := removeUserFrame_last (s := s) (f := tableAddr (m.mem slot)) (by rw [hr])
    rw [hr] at this
    exact this

theorem FreesUntracked.unmapFreePage {sm : UserAddressSpace × Machine} (h : FreesUntracked s₀ m₀ sm)
    (va : Nat) : FreesUntracked s₀ m₀ (unmapFreePage sm va).1 := by
  obtain ⟨s, m⟩ := sm
  unfold Akuma.Syscall.unmapFreePage
  split
  · rename_i pa s' m' hres
    obtain ⟨hsub, hfree, hpa⟩ := unmapAndFreePageNoFlush_spec hres
    obtain ⟨hin, hout⟩ := hpa pa rfl
    exact (h.untrack (fun _ hf => hf) hfree).free hin hsub hout
  · rename_i s' m' hres
    obtain ⟨hsub, hfree, -⟩ := unmapAndFreePageNoFlush_spec hres
    exact h.untrack hsub hfree

/-- The eager loop: each frame is freed only when its page's reference was
the last one. -/
theorem FreesUntracked.unmapEagerFrames (base : Nat) :
    ∀ (frames : List Nat) (i : Nat) (sm : UserAddressSpace × Machine), FreesUntracked s₀ m₀ sm →
      FreesUntracked s₀ m₀ (unmapEagerFrames base i frames sm) := by
  intro frames
  induction frames with
  | nil => exact fun _ _ h => h
  | cons frame frames ih =>
    rintro i ⟨s, m⟩ h
    apply ih
    -- the page is unmapped, then one reference to the frame dropped
    have h1 : FreesUntracked s₀ m₀ (s, s.unmapPageNoFlush m (wrap (base + i * 4096))) :=
      h.untrack (fun _ hf => hf) (free_unmapPageNoFlush _)
    by_cases hlast : (s.removeUserFrame frame).1 = true
    · obtain ⟨hin, hout⟩ := removeUserFrame_last hlast
      rw [if_pos hlast]
      exact h1.free hin (removeUserFrame_subset frame) hout
    · rw [if_neg hlast]
      exact h1.untrack (removeUserFrame_subset frame) rfl

theorem FreesUntracked.unmapFreePages (start : Nat) :
    ∀ (n : Nat) (sm : UserAddressSpace × Machine), FreesUntracked s₀ m₀ sm →
      FreesUntracked s₀ m₀ (unmapFreePages start n sm).1 := by
  intro n
  induction n with
  | zero => exact fun _ h => h
  | succ n ih => exact fun sm h => (ih sm h).unmapFreePage _

theorem FreesUntracked.unmapFallback (regions : List (Nat × List Nat)) (addr : Nat) :
    ∀ (n : Nat) (sm : UserAddressSpace × Machine), FreesUntracked s₀ m₀ sm →
      FreesUntracked s₀ m₀ (unmapFallback regions addr n sm) := by
  intro n
  induction n with
  | zero => exact fun _ h => h
  | succ n ih =>
    intro sm h
    rw [Akuma.Syscall.unmapFallback]
    -- a page inside an eager region is skipped
    split
    · exact ih sm h
    · exact (ih sm h).unmapFreePage _

theorem FreesUntracked.unmapLazyCuts :
    ∀ (cuts : List (Nat × Nat)) (acc : UserAddressSpace × Machine × List (Nat × Nat)),
      FreesUntracked s₀ m₀ (acc.1, acc.2.1) →
      FreesUntracked s₀ m₀ ((unmapLazyCuts cuts acc).1, (unmapLazyCuts cuts acc).2.1) := by
  intro cuts
  induction cuts with
  | nil => exact fun _ h => h
  | cons cut cuts ih =>
    rintro ⟨s, m, freeRegions⟩ h
    exact ih _ (h.unmapFreePages cut.1 cut.2 (s, m))

/-- Whatever strategy `sys_munmap` takes, it hands `free_page` only frames
its address space tracked, each at most once, and none that the address
space still tracks afterwards. -/
theorem sysMunmap_frees_untracked (st : MmapState) (addr len : Nat) :
    FreesUntracked st.space st.machine ((sysMunmap st addr len).2.space, (sysMunmap st addr len).2.machine) := by
  unfold sysMunmap
  split
  · dsimp only
    exact FreesUntracked.refl.unmapEagerFrames _ _ _ _
  · dsimp only
    split
    · exact FreesUntracked.refl.unmapLazyCuts _ (st.space, st.machine, st.memory.freeRegions)
    · exact FreesUntracked.refl.unmapFallback _ _ _ _

end Frees

/-! ## The second page of a two-page mapping

An eager two-page mapping is matched by munmap only at its exact start.
`munmap` of its second page finds no region starting there and no lazy
region. The fallback skips the page because it lies inside the eager
region. The call returns 0 and the page stays mapped to its frame. -/

theorem munmap_second_page_stays_mapped :
    (let env : MmapEnv := ⟨⟨0x4000_0000, 0x2000_0000, 0⟩, fun _ => none, fun _ => 0⟩
     let st : MmapState := ⟨⟨fun _ => 0, (List.range 8).map (0x4200_0000 + 0x1000 * ·)⟩,
       ⟨0x4100_0000, [], [], 1, false⟩,
       ⟨0x3F_FF00_0000, 0x40_0000_0000, 0x1000_0000, 0x3F_FEF0_0000, []⟩, [], [], [], 0⟩
     let r1 := sysMmap env st 0 0x2000 3 (mapPrivate ||| mapAnonymous) (-1) 0
     let r2 := sysMunmap r1.2 0x1000_1000 0x1000
     r1.1 = 0x1000_0000 ∧ r2.1 = 0 ∧
       (r2.2.space.readL3PageEntry r2.2.machine 0x1000_1000).map tableAddr = some 0x4200_1000 ∧
       r2.2.mmapRegions = [(0x1000_0000, [0x4200_0000, 0x4200_1000])]) := by
  decide +kernel

end Akuma.Syscall
