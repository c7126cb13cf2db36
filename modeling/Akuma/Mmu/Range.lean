import Akuma.Mmu.Table

/-!
# Range walkers

`collect_mapped_pages_sparse`, `collect_mapped_pages_with_flags` and
`demote_range_to_ro` of `mmu/mod.rs` run one loop over
`[va_start, va_end)`, `va_end = va_start + pages * PAGE_SIZE`. Each turn
walks L0 to L2 for `va`. Where a level is invalid or holds a block, it skips
to the end of that level's region (512 GiB, 1 GiB or 2 MiB), clamped to
`va_end`. Where it finds an L3 table, it visits the L3 entries of the pages
from `va` to the end of the 2 MiB region and goes on from there. The three
functions differ only in what a visit does, so the loop is modelled once, as
`rangeLoop`, and each function gives it its visit.

The `usize` addition `(va | mask) + 1` wraps to `0` at the top of the
address space, and the loop then starts again from `0`. The model counts
turns on fuel; each turn but the last ends on a 2 MiB boundary, so the fuel
each function gives, one more than the number of 2 MiB regions the range
meets, is enough whenever the additions do not wrap.

What the loop is checked against is the per-page loop `pageLoop`, which
walks each page of the range from L0 on its own. `rangeLoop_eq_pageLoop`
says the two agree on every range below `2 ^ 48`, the range that the
`TTBR0_EL1` tables translate. The theorems on the three functions are
instances of it.
-/

namespace Akuma.Mmu

/-! ## The loop -/

/-- `((va | mask) + 1).min(va_end)` on `usize`: the end of the region of
`va` that `mask` spans, clamped to `va_end`. -/
def skipPast (va mask vaEnd : Nat) : Nat := min (((va ||| mask) + 1) % 2 ^ 64) vaEnd

/-- What one turn of the loop does at `va`. -/
inductive RangeStep where
  /-- Go on from `next`. -/
  | skip (next : Nat)
  /-- Visit entries `l3Start` to `l3End - 1` of the L3 table at `l3`, then go
  on from `next`. -/
  | scan (l3 l3Start l3End next : Nat)
  deriving DecidableEq, Repr

/-- The walk of one turn. Inside the loop `va < va_end`, so
`va_end.wrapping_sub(1)` is `vaEnd - 1`. -/
def rangeStep (m : Machine) (l0 va vaEnd : Nat) : RangeStep :=
  let l0Entry := m.entry l0 (l0Index va)
  if l0Entry &&& Flags.valid = 0 then .skip (skipPast va 0x7F_FFFF_FFFF vaEnd) else
  let l1Entry := m.entry (tableAddr l0Entry) (l1Index va)
  if l1Entry &&& Flags.valid = 0 then .skip (skipPast va 0x3FFF_FFFF vaEnd) else
  if l1Entry &&& Flags.table = 0 then .skip (skipPast va 0x3FFF_FFFF vaEnd) else
  let l2Entry := m.entry (tableAddr l1Entry) (l2Index va)
  if l2Entry &&& Flags.valid = 0 then .skip (skipPast va 0x1F_FFFF vaEnd) else
  if l2Entry &&& Flags.table = 0 then .skip (skipPast va 0x1F_FFFF vaEnd) else
  let l2RangeEnd := skipPast va 0x1F_FFFF vaEnd
  let l3EndIdx := if l2RangeEnd = vaEnd then (((vaEnd - 1) >>> 12) &&& 0x1FF) + 1 else 512
  .scan (tableAddr l2Entry) (l3Index va) l3EndIdx l2RangeEnd

/-- `(va & !0x1F_FFFF) | (l3_idx << 12)`: the page of entry `l3Idx` in the
2 MiB region of `va`. -/
def regionPage (va l3Idx : Nat) : Nat := (va &&& (2 ^ 64 - 0x20_0000)) ||| (l3Idx <<< 12)

section Loop

variable {σ : Type} (mem : σ → Machine) (visit : σ → Nat → Nat → Nat → σ) (l0 vaEnd : Nat)

/-- The `while va < va_end` loop on `fuel` turns, over a state `σ` whose
tables `mem` reads. `visit st l3 i page` is the body of the `for l3_idx`
loop. `none` when the fuel runs out. -/
def rangeLoop : Nat → Nat → σ → Option σ
  | 0, _, _ => none
  | fuel + 1, va, st =>
    if va < vaEnd then
      match rangeStep (mem st) l0 va vaEnd with
      | .skip next => rangeLoop fuel next st
      | .scan l3 lo hi next =>
        rangeLoop fuel next ((List.range' lo (hi - lo)).foldl (fun st i => visit st l3 i (regionPage va i)) st)
    else some st

end Loop

/-- `va_start.checked_add(pages.saturating_mul(PAGE_SIZE))` on `usize`. -/
def rangeEnd (vaStart pages : Nat) : Option Nat :=
  let len := min (pages * pageSize) (2 ^ 64 - 1)
  if vaStart + len < 2 ^ 64 then some (vaStart + len) else none

/-- The fuel each walker gives the loop: one turn per 2 MiB region the range
meets, and one to leave. -/
def rangeFuel (vaStart vaEnd : Nat) : Nat := vaEnd / 0x20_0000 - vaStart / 0x20_0000 + 2

/-! ## The three walkers -/

/-- `collect_mapped_pages_sparse`: the `(va, pa)` pairs of the valid L3
descriptors of the range. -/
def collectMappedPagesSparse (m : Machine) (l0 vaStart pages : Nat) : Option (List (Nat × Nat)) :=
  if pages = 0 then some [] else
  match rangeEnd vaStart pages with
  | none => some []
  | some vaEnd =>
    rangeLoop (fun _ => m)
      (fun result l3 i pageVa =>
        let l3Entry := m.entry l3 i
        if l3Entry &&& Flags.valid ≠ 0 then
          result ++ [(pageVa, tableAddr l3Entry ||| (pageVa &&& 0xFFF))]
        else result)
      l0 vaEnd (rangeFuel vaStart vaEnd) vaStart []

/-- `AP_RO_ALL | UXN | PXN`: the permission bits `collect_mapped_pages_with_flags`
keeps. -/
def pteFlagsMask : Nat := Flags.apRoAll ||| Flags.uxn ||| Flags.pxn

/-- `collect_mapped_pages_with_flags`: the `(va, pa, flags)` triples of the
valid L3 descriptors of the range. -/
def collectMappedPagesWithFlags (m : Machine) (l0 vaStart pages : Nat) :
    Option (List (Nat × Nat × Nat)) :=
  if pages = 0 then some [] else
  match rangeEnd vaStart pages with
  | none => some []
  | some vaEnd =>
    rangeLoop (fun _ => m)
      (fun result l3 i pageVa =>
        let l3Entry := m.entry l3 i
        if l3Entry &&& Flags.valid ≠ 0 then
          result ++ [(pageVa, tableAddr l3Entry, l3Entry &&& pteFlagsMask)]
        else result)
      l0 vaEnd (rangeFuel vaStart vaEnd) vaStart []

/-- `AP_MASK` of `demote_range_to_ro`: bits 7 and 6. -/
def apMask : Nat := Flags.apRoAll ||| Flags.apRwAll

/-- The descriptor `demote_range_to_ro` writes for a read-write one:
`(entry & !AP_MASK) | AP_RO_ALL` on a `u64`. -/
def demotedEntry (entry : Nat) : Nat := (entry &&& (2 ^ 64 - 1 - apMask)) ||| Flags.apRoAll

/-- The body of the `for l3_idx` loop of `demote_range_to_ro`, over the
memory and the count of demoted descriptors. -/
def demoteVisit (st : Machine × Nat) (l3 i _pageVa : Nat) : Machine × Nat :=
  let entry := st.1.entry l3 i
  if entry &&& Flags.valid = 0 then st else
  if entry &&& apMask = Flags.apRwAll then (st.1.setEntry l3 i (demotedEntry entry), st.2 + 1)
  else st

/-- `demote_range_to_ro`: make every read-write L3 descriptor of the range
read-only; the memory after and the number demoted. -/
def demoteRangeToRo (m : Machine) (l0 vaStart pages : Nat) : Option (Machine × Nat) :=
  if pages = 0 then some (m, 0) else
  match rangeEnd vaStart pages with
  | none => some (m, 0)
  | some vaEnd => rangeLoop Prod.fst demoteVisit l0 vaEnd (rangeFuel vaStart vaEnd) vaStart (m, 0)

/-! ## The per-page loop -/

/-- The pages `lo, lo + PAGE_SIZE, …` below `hi`. -/
def pagesIn (lo hi : Nat) : List Nat := (List.range ((hi - lo) / pageSize)).map (lo + · * pageSize)

/-- The L3 table the walk of `va` reaches through three table descriptors. -/
def l3TableOf (m : Machine) (l0 va : Nat) : Option Nat :=
  let l0Entry := m.entry l0 (l0Index va)
  if l0Entry &&& Flags.valid = 0 then none else
  let l1Entry := m.entry (tableAddr l0Entry) (l1Index va)
  if l1Entry &&& Flags.valid = 0 ∨ l1Entry &&& Flags.table = 0 then none else
  let l2Entry := m.entry (tableAddr l1Entry) (l2Index va)
  if l2Entry &&& Flags.valid = 0 ∨ l2Entry &&& Flags.table = 0 then none else
  some (tableAddr l2Entry)

section PageLoop

variable {σ : Type} (mem : σ → Machine) (visit : σ → Nat → Nat → Nat → σ) (l0 : Nat)

/-- Each page in turn, walked from L0 in the current tables: `visit` its L3
entry where the walk reaches an L3 table. -/
def pageLoop (pages : List Nat) (st : σ) : σ :=
  pages.foldl (fun st va =>
    match l3TableOf (mem st) l0 va with
    | some l3 => visit st l3 (l3Index va) va
    | none => st) st

end PageLoop

/-! ## Regions as arithmetic

Below `2 ^ 48` the skips do not wrap, and the pages a turn passes over are
those whose walk reads the same L0, L1 and L2 descriptors as `va`. -/

section Regions

/-- Setting the low `k` bits and adding one gives the next multiple of
`2 ^ k`. -/
theorem or_two_pow_sub_one_add_one (x k : Nat) :
    (x ||| (2 ^ k - 1)) + 1 = (x / 2 ^ k + 1) * 2 ^ k := by
  have hor : x ||| (2 ^ k - 1) = 2 ^ k * (x / 2 ^ k) + (2 ^ k - 1) := by
    rw [Nat.two_pow_add_eq_or_of_lt (Nat.sub_lt (Nat.two_pow_pos k) Nat.one_pos)]
    apply Nat.eq_of_testBit_eq
    intro i
    simp only [Nat.testBit_or, Nat.testBit_two_pow_sub_one]
    -- below bit `k` both sides are set; from bit `k` on both are the bits of `x`
    by_cases hi : i < k
    · simp [hi]
    · have hki : k ≤ i := by omega
      simp [hi, hki, Nat.testBit_two_pow_mul, Nat.testBit_div_two_pow, Nat.sub_add_cancel hki]
  have hpos := Nat.two_pow_pos k
  rw [hor, Nat.add_assoc, Nat.sub_add_cancel hpos, Nat.add_mul, Nat.one_mul, Nat.mul_comm]

/-- Below `2 ^ 48` a skip goes to the next multiple of `2 ^ k`, or to
`va_end` if that comes first. -/
theorem skipPast_eq {va vaEnd k : Nat} (hk : k ≤ 48) (hva : va < 2 ^ 48) :
    skipPast va (2 ^ k - 1) vaEnd = min ((va / 2 ^ k + 1) * 2 ^ k) vaEnd := by
  have hdiv : va / 2 ^ k * 2 ^ k ≤ va := Nat.div_mul_le_self va _
  have hpow : 2 ^ k ≤ 2 ^ 48 := Nat.pow_le_pow_right (by norm_num) hk
  have hlt : (va / 2 ^ k + 1) * 2 ^ k < 2 ^ 64 := by
    rw [Nat.add_mul, Nat.one_mul]
    have : (2 : Nat) ^ 48 + 2 ^ 48 < 2 ^ 64 := by norm_num
    omega
  rw [skipPast, or_two_pow_sub_one_add_one, Nat.mod_eq_of_lt hlt]

/-- The addresses from `va` up to the next multiple of `2 ^ k` share their
bits from `k` on. -/
theorem div_eq_of_lt_next {p va k : Nat} (h1 : va ≤ p) (h2 : p < (va / 2 ^ k + 1) * 2 ^ k) :
    p / 2 ^ k = va / 2 ^ k :=
  Nat.div_eq_of_lt_le (le_trans (Nat.div_mul_le_self va _) h1) h2

theorem l0Index_of_div_eq {p va : Nat} (h : p / 2 ^ 39 = va / 2 ^ 39) : l0Index p = l0Index va := by
  rw [l0Index_eq, l0Index_eq, h]

theorem l1Index_of_div_eq {p va : Nat} (h : p / 2 ^ 30 = va / 2 ^ 30) :
    l0Index p = l0Index va ∧ l1Index p = l1Index va := by
  refine ⟨l0Index_of_div_eq ?_, by rw [l1Index_eq, l1Index_eq, h]⟩
  rw [show (2 : Nat) ^ 39 = 2 ^ 30 * 2 ^ 9 by norm_num, ← Nat.div_div_eq_div_mul,
    ← Nat.div_div_eq_div_mul, h]

theorem l2Index_of_div_eq {p va : Nat} (h : p / 2 ^ 21 = va / 2 ^ 21) :
    l0Index p = l0Index va ∧ l1Index p = l1Index va ∧ l2Index p = l2Index va := by
  have h30 : p / 2 ^ 30 = va / 2 ^ 30 := by
    rw [show (2 : Nat) ^ 30 = 2 ^ 21 * 2 ^ 9 by norm_num, ← Nat.div_div_eq_div_mul,
      ← Nat.div_div_eq_div_mul, h]
  obtain ⟨h0, h1⟩ := l1Index_of_div_eq h30
  exact ⟨h0, h1, by rw [l2Index_eq, l2Index_eq, h]⟩

/-- Pages of one 2 MiB region reach the same L3 table. -/
theorem l3TableOf_of_div_eq (m : Machine) (l0 : Nat) {p va : Nat} (h : p / 2 ^ 21 = va / 2 ^ 21) :
    l3TableOf m l0 p = l3TableOf m l0 va := by
  obtain ⟨h0, h1, h2⟩ := l2Index_of_div_eq h
  simp only [l3TableOf, h0, h1, h2]

/-- What one turn does: skip past the `2 ^ k`-region of `va`, whose pages
reach no L3 table, or scan the L3 table of the 2 MiB region of `va`. -/
theorem rangeStep_cases (m : Machine) (l0 va vaEnd : Nat) :
    (∃ k, (k = 39 ∨ k = 30 ∨ k = 21) ∧
        rangeStep m l0 va vaEnd = .skip (skipPast va (2 ^ k - 1) vaEnd) ∧
        ∀ p, p / 2 ^ k = va / 2 ^ k → l3TableOf m l0 p = none) ∨
    (∃ l3, l3TableOf m l0 va = some l3 ∧
        rangeStep m l0 va vaEnd =
          .scan l3 (l3Index va)
            (if skipPast va (2 ^ 21 - 1) vaEnd = vaEnd then (((vaEnd - 1) >>> 12) &&& 0x1FF) + 1
              else 512)
            (skipPast va (2 ^ 21 - 1) vaEnd)) := by
  have e39 : (0x7F_FFFF_FFFF : Nat) = 2 ^ 39 - 1 := by norm_num
  have e30 : (0x3FFF_FFFF : Nat) = 2 ^ 30 - 1 := by norm_num
  have e21 : (0x1F_FFFF : Nat) = 2 ^ 21 - 1 := by norm_num
  unfold rangeStep
  dsimp only
  rw [e39, e30, e21]
  by_cases v0 : m.entry l0 (l0Index va) &&& Flags.valid = 0
  · -- an invalid L0 descriptor: the 512 GiB region is skipped
    refine .inl ⟨39, by simp, by simp [v0], fun p hp => ?_⟩
    simp [l3TableOf, l0Index_of_div_eq hp, v0]
  by_cases v1 : m.entry (tableAddr (m.entry l0 (l0Index va))) (l1Index va) &&& Flags.valid = 0 ∨
      m.entry (tableAddr (m.entry l0 (l0Index va))) (l1Index va) &&& Flags.table = 0
  · -- an invalid L1 descriptor or a 1 GiB block: the 1 GiB region is skipped
    refine .inl ⟨30, by simp, by rcases v1 with v1 | v1 <;> simp [v0, v1], fun p hp => ?_⟩
    obtain ⟨h0, h1⟩ := l1Index_of_div_eq hp
    simp [l3TableOf, h0, h1, v0, v1]
  rw [not_or] at v1
  by_cases v2 : m.entry (tableAddr (m.entry (tableAddr (m.entry l0 (l0Index va))) (l1Index va)))
        (l2Index va) &&& Flags.valid = 0 ∨
      m.entry (tableAddr (m.entry (tableAddr (m.entry l0 (l0Index va))) (l1Index va)))
        (l2Index va) &&& Flags.table = 0
  · -- an invalid L2 descriptor or a 2 MiB block: the 2 MiB region is skipped
    refine .inl ⟨21, by simp, by rcases v2 with v2 | v2 <;> simp [v0, v1, v2], fun p hp => ?_⟩
    obtain ⟨h0, h1, h2⟩ := l2Index_of_div_eq hp
    simp [l3TableOf, h0, h1, h2, v0, v1, v2]
  rw [not_or] at v2
  refine .inr ⟨tableAddr (m.entry (tableAddr (m.entry (tableAddr (m.entry l0 (l0Index va)))
    (l1Index va))) (l2Index va)), ?_, ?_⟩ <;> simp [l3TableOf, v0, v1, v2]

end Regions

/-! ## Pages of a range -/

section Pages

@[simp] theorem pagesIn_self (a : Nat) : pagesIn a a = [] := by
  simp [pagesIn]

theorem lt_of_mem_pagesIn {lo hi p : Nat} (h : p ∈ pagesIn lo hi) : lo ≤ p ∧ p < hi := by
  simp only [pagesIn, pageSize, List.mem_map, List.mem_range] at h
  obtain ⟨j, hj, rfl⟩ := h
  have : (j + 1) * 4096 ≤ hi - lo := by
    have := (Nat.le_div_iff_mul_le (by norm_num : 0 < 4096)).mp hj
    omega
  omega

/-- A range splits at any page boundary inside it. -/
theorem pagesIn_append {lo mid hi : Nat} (h1 : lo ≤ mid) (h2 : mid ≤ hi)
    (hm : (mid - lo) % pageSize = 0) : pagesIn lo mid ++ pagesIn mid hi = pagesIn lo hi := by
  have hsplit : (hi - lo) / pageSize = (mid - lo) / pageSize + (hi - mid) / pageSize := by
    simp only [pageSize] at hm ⊢
    omega
  rw [pagesIn, pagesIn, pagesIn, hsplit, List.range_add, List.map_append, List.map_map]
  congr 2
  funext j
  simp only [Function.comp_apply, pageSize] at hm ⊢
  have : (mid - lo) / 4096 * 4096 = mid - lo := Nat.div_mul_cancel (Nat.dvd_of_mod_eq_zero hm)
  rw [Nat.add_mul, this]
  omega

/-- The page of entry `i` of the region of `va` is the region's base plus
`i` pages. -/
theorem regionPage_eq {va i : Nat} (hva : va < 2 ^ 64) (hi : i < 512) :
    regionPage va i = va / 2 ^ 21 * 2 ^ 21 + i * 4096 := by
  have hi21 : i * 2 ^ 12 < 2 ^ 21 := by
    have : i * 2 ^ 12 < 512 * 2 ^ 12 := Nat.mul_lt_mul_of_pos_right hi (by norm_num)
    simpa using this
  rw [regionPage, show (2 ^ 64 - 0x20_0000 : Nat) = 2 ^ 64 - 2 ^ 21 by norm_num,
    and_two_pow_sub_two_pow (by norm_num) hva, Nat.shiftLeft_eq,
    Nat.mul_comm (va / 2 ^ 21), ← Nat.two_pow_add_eq_or_of_lt hi21]
  ring

/-- The page of entry `i < 512` of a region has L3 index `i`. -/
theorem l3Index_regionPage {va i : Nat} (hva : va < 2 ^ 64) (hi : i < 512) :
    l3Index (regionPage va i) = i := by
  rw [regionPage_eq hva hi, l3Index_eq]
  clear hva
  norm_num
  omega

/-- The pages `regionPage va i` for `i` from the L3 index of `va` up to the
end index a turn computes are the pages from `va` up to where the turn goes
on. -/
theorem map_regionPage_range' {va vaEnd : Nat} (hva : va % pageSize = 0)
    (hend : vaEnd % pageSize = 0) (hlt : va < vaEnd) (hbound : vaEnd ≤ 2 ^ 48) :
    (List.range' (l3Index va)
        ((if skipPast va (2 ^ 21 - 1) vaEnd = vaEnd then (((vaEnd - 1) >>> 12) &&& 0x1FF) + 1
          else 512) - l3Index va)).map (regionPage va) =
      pagesIn va (skipPast va (2 ^ 21 - 1) vaEnd) := by
  -- count in pages: `va = p * 4096` and `vaEnd = q * 4096`
  obtain ⟨p, rfl⟩ : ∃ p, va = p * 4096 :=
    ⟨va / 4096, (Nat.div_mul_cancel (Nat.dvd_of_mod_eq_zero hva)).symm⟩
  obtain ⟨q, rfl⟩ : ∃ q, vaEnd = q * 4096 :=
    ⟨vaEnd / 4096, (Nat.div_mul_cancel (Nat.dvd_of_mod_eq_zero hend)).symm⟩
  have hpq : p < q := Nat.lt_of_mul_lt_mul_right hlt
  have hp48 : p * 4096 < 2 ^ 48 := by omega
  have hregion : p * 4096 / 2 ^ 21 = p / 512 := by
    rw [show (2 : Nat) ^ 21 = 4096 * 512 by norm_num, ← Nat.div_div_eq_div_mul,
      Nat.mul_div_cancel _ (by norm_num)]
  have hnext : skipPast (p * 4096) (2 ^ 21 - 1) (q * 4096) = min ((p / 512 + 1) * 512) q * 4096 := by
    rw [skipPast_eq (by norm_num) hp48, hregion]
    norm_num
    omega
  have hhi : ((q * 4096 - 1) >>> 12) &&& 0x1FF = (q - 1) % 512 := by
    rw [Nat.shiftRight_eq_div_pow, show (0x1FF : Nat) = 2 ^ 9 - 1 by norm_num,
      Nat.and_two_pow_sub_one_eq_mod]
    norm_num
    omega
  have hl3 : l3Index (p * 4096) = p % 512 := by
    rw [l3Index_eq, show (2 : Nat) ^ 12 = 4096 by norm_num, Nat.mul_div_cancel _ (by norm_num)]
  have hpage : ∀ i < 512, regionPage (p * 4096) i = (p / 512 * 512 + i) * 4096 := by
    intro i hi
    rw [regionPage_eq (lt_trans hp48 (by norm_num)) hi, hregion]
    ring
  -- the number of entries scanned is the number of pages up to where the turn goes on
  have hcount : (if min ((p / 512 + 1) * 512) q * 4096 = q * 4096 then (q - 1) % 512 + 1
      else 512) - p % 512 = (min ((p / 512 + 1) * 512) q * 4096 - p * 4096) / pageSize := by
    rw [pageSize, ← Nat.sub_mul, Nat.mul_div_cancel _ (by norm_num)]
    split_ifs <;> omega
  rw [hhi, hnext, hl3, hcount, pagesIn, List.range'_eq_map_range, List.map_map]
  apply List.map_congr_left
  intro j hj
  rw [List.mem_range, ← hcount] at hj
  have hj512 : p % 512 + j < 512 := by split_ifs at hj <;> omega
  simp only [Function.comp_apply, pageSize]
  rw [hpage _ hj512]
  omega

/-- Where a skip past a `2 ^ k`-region goes, for `21 ≤ k`: on past `va`, not
past `va_end`, to a page boundary, and to a later 2 MiB region unless it stops
at `va_end`; the pages it passes over share their bits from `k` on with `va`. -/
theorem skipPast_spec {va vaEnd k : Nat} (hk21 : 21 ≤ k) (hk : k ≤ 48)
    (hend : vaEnd % pageSize = 0) (hlt : va < vaEnd) (hbound : vaEnd ≤ 2 ^ 48) :
    va < skipPast va (2 ^ k - 1) vaEnd ∧ skipPast va (2 ^ k - 1) vaEnd ≤ vaEnd ∧
      skipPast va (2 ^ k - 1) vaEnd % pageSize = 0 ∧
      (skipPast va (2 ^ k - 1) vaEnd < vaEnd → va / 2 ^ 21 < skipPast va (2 ^ k - 1) vaEnd / 2 ^ 21) ∧
      ∀ p, va ≤ p → p < skipPast va (2 ^ k - 1) vaEnd → p / 2 ^ k = va / 2 ^ k := by
  rw [skipPast_eq hk (by omega)]
  have hc : va < (va / 2 ^ k + 1) * 2 ^ k := by
    rw [Nat.add_mul, Nat.one_mul]
    exact Nat.lt_div_mul_add (Nat.two_pow_pos k)
  -- the next multiple of `2 ^ k` is a multiple of `2 ^ 21`
  have h21 : (va / 2 ^ k + 1) * 2 ^ k = (va / 2 ^ k + 1) * 2 ^ (k - 21) * 2 ^ 21 := by
    rw [Nat.mul_assoc, ← Nat.pow_add, Nat.sub_add_cancel hk21]
  have hpage : (va / 2 ^ k + 1) * 2 ^ k % pageSize = 0 := by
    rw [h21, pageSize, show (2 : Nat) ^ 21 = 512 * 4096 by norm_num, ← Nat.mul_assoc]
    exact Nat.mul_mod_left _ _
  refine ⟨lt_min hc hlt, min_le_right _ _, ?_, fun hnext => ?_, fun p h1 h2 => ?_⟩
  · rcases min_choice ((va / 2 ^ k + 1) * 2 ^ k) vaEnd with h | h <;> rw [h] <;> assumption
  · have hmin : min ((va / 2 ^ k + 1) * 2 ^ k) vaEnd = (va / 2 ^ k + 1) * 2 ^ k := by
      rcases min_choice ((va / 2 ^ k + 1) * 2 ^ k) vaEnd with h | h
      · exact h
      · omega
    rw [hmin, h21, Nat.mul_div_cancel _ (Nat.two_pow_pos 21)]
    exact Nat.div_lt_of_lt_mul (h21 ▸ hc |>.trans_eq (Nat.mul_comm _ _))
  · exact div_eq_of_lt_next h1 (lt_of_lt_of_le h2 (min_le_left _ _))


end Pages

/-! ## The loop refines the per-page loop -/

section Refinement

variable {σ : Type} (mem : σ → Machine) (visit : σ → Nat → Nat → Nat → σ) (l0 : Nat)

theorem pageLoop_append (a b : List Nat) (st : σ) :
    pageLoop mem visit l0 (a ++ b) st = pageLoop mem visit l0 b (pageLoop mem visit l0 a st) := by
  simp [pageLoop, List.foldl_append]

/-- Pages that reach no L3 table are passed over. -/
theorem pageLoop_of_none : ∀ (pages : List Nat) (st : σ),
    (∀ p ∈ pages, l3TableOf (mem st) l0 p = none) → pageLoop mem visit l0 pages st = st
  | [], _, _ => rfl
  | p :: pages, st, h => by
    have hp : l3TableOf (mem st) l0 p = none := h p List.mem_cons_self
    simp only [pageLoop, List.foldl_cons, hp] at h ⊢
    exact pageLoop_of_none pages st fun q hq => h q (List.mem_cons_of_mem p hq)

variable {mem visit l0}
variable (hkeep : ∀ st l3 i page q, l3TableOf (mem (visit st l3 i page)) l0 q = l3TableOf (mem st) l0 q)
include hkeep

/-- Pages that all reach the L3 table `l3`, each at its own index, are the
visits of those indices. -/
theorem pageLoop_map_of_table (l3 : Nat) (f : Nat → Nat) : ∀ (is : List Nat) (st : σ),
    (∀ i ∈ is, l3TableOf (mem st) l0 (f i) = some l3 ∧ l3Index (f i) = i) →
    pageLoop mem visit l0 (is.map f) st = is.foldl (fun st i => visit st l3 i (f i)) st
  | [], _, _ => rfl
  | i :: is, st, h => by
    obtain ⟨ht, hi⟩ := h i List.mem_cons_self
    simp only [List.map_cons, List.foldl_cons, pageLoop, ht, hi] at h ⊢
    -- the visit keeps every walk down to the L3 table, so the rest still reach `l3`
    refine pageLoop_map_of_table l3 f is _ fun j hj => ?_
    rw [hkeep]
    exact h j (List.mem_cons_of_mem i hj)

/-- The loop, with enough fuel for the 2 MiB regions left, ends with the
per-page loop over the pages left. -/
theorem rangeLoop_eq_pageLoop_of_fuel {vaEnd : Nat} (hend : vaEnd % pageSize = 0)
    (hbound : vaEnd ≤ 2 ^ 48) : ∀ (fuel va : Nat) (st : σ), va % pageSize = 0 → va ≤ vaEnd →
      0 < fuel → (va < vaEnd → (vaEnd - 1) / 2 ^ 21 + 2 ≤ fuel + va / 2 ^ 21) →
      rangeLoop mem visit l0 vaEnd fuel va st = some (pageLoop mem visit l0 (pagesIn va vaEnd) st)
  | 0, _, _, _, _, hpos, _ => absurd hpos (Nat.lt_irrefl 0)
  | fuel + 1, va, st, hva, hle, _, hfuel => by
    rw [rangeLoop]
    by_cases hlt : va < vaEnd
    swap
    · -- the loop ends at `va_end`, with no page left
      have : va = vaEnd := by omega
      subst this
      simp [pageLoop]
    rw [if_pos hlt]
    have hva48 : va < 2 ^ 48 := lt_of_lt_of_le hlt hbound
    -- the fuel left covers the regions after the next stop
    have hfuel' : ∀ next, va < next → next ≤ vaEnd → (next < vaEnd → va / 2 ^ 21 < next / 2 ^ 21) →
        0 < fuel ∧ (next < vaEnd → (vaEnd - 1) / 2 ^ 21 + 2 ≤ fuel + next / 2 ^ 21) := by
      intro next h1 h2 h3
      have hmono : va / 2 ^ 21 ≤ (vaEnd - 1) / 2 ^ 21 := Nat.div_le_div_right (by omega)
      have := hfuel hlt
      refine ⟨?_, fun hn => ?_⟩
      · omega
      · have := h3 hn
        omega
    rcases rangeStep_cases (mem st) l0 va vaEnd with ⟨k, hk, hstep, hnone⟩ | ⟨l3, hl3, hstep⟩
    · -- a skip: the pages passed over reach no L3 table
      have hk21 : 21 ≤ k := by omega
      obtain ⟨h1, h2, h3, h4, h5⟩ := skipPast_spec hk21 (by omega) hend hlt hbound
      obtain ⟨hpos', hfuel''⟩ := hfuel' _ h1 h2 h4
      rw [hstep]
      dsimp only
      rw [rangeLoop_eq_pageLoop_of_fuel hend hbound fuel _ st h3 h2 hpos' hfuel'',
        ← pagesIn_append (le_of_lt h1) h2 (by simp only [pageSize] at hva h3 ⊢; omega),
        pageLoop_append, pageLoop_of_none mem visit l0 (pagesIn va (skipPast va (2 ^ k - 1) vaEnd)) st]
      intro p hp
      obtain ⟨hp1, hp2⟩ := lt_of_mem_pagesIn hp
      exact hnone p (h5 p hp1 hp2)
    · -- a scan: the pages of the region are visited in order, each through `l3`
      obtain ⟨h1, h2, h3, h4, h5⟩ := skipPast_spec (le_refl 21) (by norm_num) hend hlt hbound
      obtain ⟨hpos', hfuel''⟩ := hfuel' _ h1 h2 h4
      rw [hstep]
      dsimp only
      rw [← pageLoop_map_of_table hkeep l3 (regionPage va), map_regionPage_range' hva hend hlt hbound,
        rangeLoop_eq_pageLoop_of_fuel hend hbound fuel _ _ h3 h2 hpos' hfuel'',
        ← pageLoop_append, pagesIn_append (le_of_lt h1) h2 (by simp only [pageSize] at hva h3 ⊢; omega)]
      intro i hi
      have hmem := map_regionPage_range' hva hend hlt hbound ▸ List.mem_map_of_mem hi
      obtain ⟨hp1, hp2⟩ := lt_of_mem_pagesIn hmem
      -- the indices scanned stay below 512
      have hi512 : i < 512 := by
        rw [List.mem_range'_1] at hi
        have hend512 : (((vaEnd - 1) >>> 12) &&& 0x1FF) + 1 ≤ 512 :=
          Nat.succ_le_succ Nat.and_le_right
        have := l3Index_lt va
        split_ifs at hi <;> omega
      refine ⟨?_, l3Index_regionPage (lt_trans hva48 (by norm_num)) hi512⟩
      rw [l3TableOf_of_div_eq _ _ (h5 _ hp1 hp2), hl3]

/-- The loop over a page-aligned range below `2 ^ 48`, on the fuel the
walkers give it, is the per-page loop over the range's pages. -/
theorem rangeLoop_eq_pageLoop {vaStart vaEnd : Nat} (hva : vaStart % pageSize = 0)
    (hend : vaEnd % pageSize = 0) (hle : vaStart ≤ vaEnd) (hbound : vaEnd ≤ 2 ^ 48) (st : σ) :
    rangeLoop mem visit l0 vaEnd (rangeFuel vaStart vaEnd) vaStart st =
      some (pageLoop mem visit l0 (pagesIn vaStart vaEnd) st) := by
  refine rangeLoop_eq_pageLoop_of_fuel hkeep hend hbound _ _ st hva hle (by simp [rangeFuel])
    fun hlt => ?_
  have h1 : vaStart / 2 ^ 21 ≤ vaEnd / 2 ^ 21 := Nat.div_le_div_right hle
  have h2 : (vaEnd - 1) / 2 ^ 21 ≤ vaEnd / 2 ^ 21 := Nat.div_le_div_right (Nat.sub_le _ _)
  simp only [rangeFuel, show (0x20_0000 : Nat) = 2 ^ 21 by norm_num]
  omega

end Refinement

/-- Below `2 ^ 48` the end of the range neither saturates nor overflows. -/
theorem rangeEnd_of_le {vaStart pages : Nat} (h : vaStart + pages * pageSize ≤ 2 ^ 48) :
    rangeEnd vaStart pages = some (vaStart + pages * pageSize) := by
  have h64 : (2 : Nat) ^ 48 < 2 ^ 64 - 1 := by norm_num
  have hmin : min (pages * pageSize) (2 ^ 64 - 1) = pages * pageSize := min_eq_left (by omega)
  simp only [rangeEnd, hmin]
  rw [if_pos (by omega)]

/-! ## The walkers against the walk -/

/-- The page descriptor a walk ends at, if it ends at one. -/
def pageLeafEntry : Option Leaf → Option Nat
  | some (.page e) => some e
  | _ => none

/-- The page descriptor of `va` is the valid entry of its L3 table. -/
theorem pageLeafEntry_walk (m : Machine) (l0 va : Nat) :
    pageLeafEntry (walk m l0 va) = (l3TableOf m l0 va).bind fun t =>
      if m.entry t (l3Index va) &&& Flags.valid = 0 then none else some (m.entry t (l3Index va)) := by
  unfold walk l3TableOf
  dsimp only
  split_ifs <;> simp_all [pageLeafEntry]

/-- Where no walk of the range ends at a block, `translate_user_va` is the
output address of the page descriptor. -/
theorem translateUserVa_of_not_block {m : Machine} {l0 va : Nat}
    (h : ∀ leaf, walk m l0 va = some leaf → ∃ e, leaf = .page e) :
    translateUserVa m l0 va = (pageLeafEntry (walk m l0 va)).map fun e => tableAddr e ||| (va &&& 0xFFF) := by
  rw [translateUserVa_eq_walk]
  rcases hw : walk m l0 va with _ | leaf
  · rfl
  · obtain ⟨e, rfl⟩ := h _ hw
    rfl

section Collect

variable {α : Type} (m : Machine) (l0 : Nat) (g : Nat → Nat → α)

/-- A visit that appends `g entry page` for each valid descriptor, as both
collectors do, collects the pages whose walk ends at a page descriptor. -/
theorem pageLoop_collect : ∀ (pages : List Nat) (acc : List α),
    pageLoop (fun _ => m) (fun result l3 i pageVa =>
        let l3Entry := m.entry l3 i
        if l3Entry &&& Flags.valid ≠ 0 then result ++ [g l3Entry pageVa] else result) l0 pages acc =
      acc ++ pages.filterMap fun va => (pageLeafEntry (walk m l0 va)).map (g · va)
  | [], acc => by simp [pageLoop]
  | va :: pages, acc => by
    have ih := pageLoop_collect pages
    simp only [pageLoop] at ih ⊢
    rw [List.foldl_cons, List.filterMap_cons, pageLeafEntry_walk]
    -- the first page adds one pair exactly when its walk ends at a valid L3 entry
    rcases l3TableOf m l0 va with _ | t
    · simpa using ih acc
    · by_cases hv : m.entry t (l3Index va) &&& Flags.valid = 0
      · simpa [hv] using ih acc
      · simpa [hv] using ih (acc ++ [g (m.entry t (l3Index va)) va])

end Collect

/-- The `n` pages from `vaStart`. -/
theorem pagesIn_add_mul (vaStart n : Nat) :
    pagesIn vaStart (vaStart + n * pageSize) = (List.range n).map (vaStart + · * pageSize) := by
  simp [pagesIn, pageSize]

/-- `collect_mapped_pages_sparse` over a page-aligned range below `2 ^ 48`
lists, in order, the pages whose walk ends at a page descriptor, with the
address the descriptor maps them to. -/
theorem collectMappedPagesSparse_eq (m : Machine) (l0 : Nat) {vaStart n : Nat}
    (hva : vaStart % pageSize = 0) (hbound : vaStart + n * pageSize ≤ 2 ^ 48) :
    collectMappedPagesSparse m l0 vaStart n = some ((List.range n).filterMap fun i =>
      (pageLeafEntry (walk m l0 (vaStart + i * pageSize))).map fun e =>
        (vaStart + i * pageSize, tableAddr e ||| ((vaStart + i * pageSize) &&& 0xFFF))) := by
  unfold collectMappedPagesSparse
  split_ifs with hn
  · simp [hn]
  rw [rangeEnd_of_le hbound]
  dsimp only
  have hend : (vaStart + n * pageSize) % pageSize = 0 := by simp [Nat.add_mod, hva]
  rw [@rangeLoop_eq_pageLoop _ (fun _ => m) _ l0 (fun _ _ _ _ _ => rfl) _ _ hva hend
      (Nat.le_add_right _ _) hbound,
    pageLoop_collect m l0 (fun e va => (va, tableAddr e ||| (va &&& 0xFFF))), pagesIn_add_mul,
    List.filterMap_map]
  rfl

/-- `collect_mapped_pages_with_flags` over a page-aligned range below
`2 ^ 48` lists, in order, the pages whose walk ends at a page descriptor, with
the descriptor's output address and its AP, UXN and PXN bits. -/
theorem collectMappedPagesWithFlags_eq (m : Machine) (l0 : Nat) {vaStart n : Nat}
    (hva : vaStart % pageSize = 0) (hbound : vaStart + n * pageSize ≤ 2 ^ 48) :
    collectMappedPagesWithFlags m l0 vaStart n = some ((List.range n).filterMap fun i =>
      (pageLeafEntry (walk m l0 (vaStart + i * pageSize))).map fun e =>
        (vaStart + i * pageSize, tableAddr e, e &&& pteFlagsMask)) := by
  unfold collectMappedPagesWithFlags
  split_ifs with hn
  · simp [hn]
  rw [rangeEnd_of_le hbound]
  dsimp only
  have hend : (vaStart + n * pageSize) % pageSize = 0 := by simp [Nat.add_mod, hva]
  rw [@rangeLoop_eq_pageLoop _ (fun _ => m) _ l0 (fun _ _ _ _ _ => rfl) _ _ hva hend
      (Nat.le_add_right _ _) hbound,
    pageLoop_collect m l0 (fun e va => (va, tableAddr e, e &&& pteFlagsMask)), pagesIn_add_mul,
    List.filterMap_map]
  rfl

/-! ## Demotion -/

section Demote

/-- A mask that `!AP_MASK` covers and `AP_RO_ALL` misses reads the same bits
of a demoted descriptor as of the old one. -/
theorem demotedEntry_and {e c : Nat} (hM : (2 ^ 64 - 1 - apMask) &&& c = c)
    (hR : Flags.apRoAll &&& c = 0) : demotedEntry e &&& c = e &&& c := by
  rw [demotedEntry, Nat.and_or_distrib_right, Nat.and_assoc, hM, hR, Nat.or_zero]

/-- A demoted descriptor has `AP_RO_ALL` in its AP bits. -/
theorem demotedEntry_and_apMask (e : Nat) : demotedEntry e &&& apMask = Flags.apRoAll := by
  rw [demotedEntry, Nat.and_or_distrib_right, Nat.and_assoc]
  have h1 : (2 ^ 64 - 1 - apMask) &&& apMask = 0 := by decide
  have h2 : Flags.apRoAll &&& apMask = Flags.apRoAll := by decide
  rw [h1, h2, Nat.and_zero, Nat.zero_or]

/-- Demotion keeps every other bit of a 64-bit descriptor. -/
theorem demotedEntry_and_not_apMask (e : Nat) :
    demotedEntry e &&& (2 ^ 64 - 1 - apMask) = e &&& (2 ^ 64 - 1 - apMask) :=
  demotedEntry_and (Nat.and_self _) (by decide)

/-- Demoting a descriptor in place keeps the valid bit, the table bit and
the output address of every word, so every walk reaches the same tables. -/
theorem l3TableOf_write_demoted (m : Machine) (a l0 q : Nat) :
    l3TableOf (m.write a (demotedEntry (m.mem a))) l0 q = l3TableOf m l0 q := by
  have keep : ∀ c, (2 ^ 64 - 1 - apMask) &&& c = c → Flags.apRoAll &&& c = 0 →
      ∀ t i, (m.write a (demotedEntry (m.mem a))).entry t i &&& c = m.entry t i &&& c := by
    intro c hM hR t i
    simp only [Machine.entry, Machine.write_mem]
    by_cases hti : t + 8 * i = a
    · rw [hti, Function.update_self, demotedEntry_and hM hR]
    · rw [Function.update_of_ne hti]
  have hv := keep Flags.valid (by decide) (by decide)
  have ht := keep Flags.table (by decide) (by decide)
  have ha := keep 0x0000_FFFF_FFFF_F000 (by decide) (by decide)
  simp only [l3TableOf, tableAddr, hv, ht, ha]
  rfl

theorem l3TableOf_demoteVisit (st : Machine × Nat) (l3 i page l0 q : Nat) :
    l3TableOf (demoteVisit st l3 i page).1 l0 q = l3TableOf st.1 l0 q := by
  unfold demoteVisit
  dsimp only
  split_ifs
  · rfl
  · exact l3TableOf_write_demoted st.1 (l3 + 8 * i) l0 q
  · rfl

/-- The address of the L3 descriptor of `va`, where the walk reaches an L3
table. -/
def l3SlotOf (m : Machine) (l0 va : Nat) : Option Nat := (l3TableOf m l0 va).map (· + 8 * l3Index va)

/-- Whether `va` is mapped by a page descriptor with `AP == AP_RW_ALL`, the
test `demote_range_to_ro` makes. -/
def rwPage (m : Machine) (l0 va : Nat) : Bool :=
  match pageLeafEntry (walk m l0 va) with
  | some e => e &&& apMask == Flags.apRwAll
  | none => false

/-- One page of the per-page demotion, in tables that walk as `m` does and
hold `m`'s descriptor for the page: demote it and count it exactly when `m`
maps it read-write. -/
theorem demote_page_step (m mk : Machine) (l0 p c : Nat) (ht : l3TableOf mk l0 p = l3TableOf m l0 p)
    (hslot : ∀ a, l3SlotOf m l0 p = some a → mk.mem a = m.mem a) :
    (match l3TableOf mk l0 p with
      | some l3 => demoteVisit (mk, c) l3 (l3Index p) p
      | none => (mk, c)) =
    match l3SlotOf m l0 p with
    | some a => if rwPage m l0 p then (mk.write a (demotedEntry (m.mem a)), c + 1) else (mk, c)
    | none => (mk, c) := by
  rw [ht]
  unfold rwPage
  rw [pageLeafEntry_walk]
  rcases hT : l3TableOf m l0 p with _ | t
  · simp [l3SlotOf, hT]
  · have hmem := hslot (t + 8 * l3Index p) (by simp [l3SlotOf, hT])
    simp only [l3SlotOf, hT, Option.map_some, Option.bind_some, demoteVisit, Machine.entry, hmem]
    -- the descriptor is skipped when invalid, demoted when read-write, kept otherwise
    by_cases hv : m.mem (t + 8 * l3Index p) &&& Flags.valid = 0
    · simp [hv]
    · by_cases hrw : m.mem (t + 8 * l3Index p) &&& apMask = Flags.apRwAll
      · simp [hv, hrw, Machine.setEntry]
      · simp [hv, hrw]

/-- A page whose walk reaches no L3 table is not read-write. -/
theorem rwPage_of_l3SlotOf_none {m : Machine} {l0 p : Nat} (h : l3SlotOf m l0 p = none) :
    rwPage m l0 p = false := by
  unfold l3SlotOf at h
  simp only [Option.map_eq_none_iff] at h
  simp [rwPage, pageLeafEntry_walk, h]

/-- The per-page demotion over pages with distinct L3 descriptors, from
tables that walk as `m` does and hold `m`'s descriptors for those pages:
it counts the read-write pages and demotes exactly their descriptors. -/
theorem pageLoop_demote (m : Machine) (l0 : Nat) : ∀ (pages : List Nat) (mk : Machine) (c : Nat),
    (pages.filterMap (l3SlotOf m l0)).Nodup →
    (∀ q ∈ pages, l3TableOf mk l0 q = l3TableOf m l0 q) →
    (∀ q ∈ pages, ∀ a, l3SlotOf m l0 q = some a → mk.mem a = m.mem a) →
    (pageLoop Prod.fst demoteVisit l0 pages (mk, c)).2 = c + (pages.filter (rwPage m l0)).length ∧
    ∀ a, (pageLoop Prod.fst demoteVisit l0 pages (mk, c)).1.mem a =
      if ∃ p ∈ pages, rwPage m l0 p = true ∧ l3SlotOf m l0 p = some a then demotedEntry (m.mem a)
      else mk.mem a
  | [], mk, c, _, _, _ => by simp [pageLoop]
  | p :: rest, mk, c, hnodup, htab, hslot => by
    have hstep := demote_page_step m mk l0 p c (htab p List.mem_cons_self) (hslot p List.mem_cons_self)
    have htab' : ∀ q ∈ rest, l3TableOf mk l0 q = l3TableOf m l0 q :=
      fun q hq => htab q (List.mem_cons_of_mem p hq)
    have hslot' : ∀ q ∈ rest, ∀ a, l3SlotOf m l0 q = some a → mk.mem a = m.mem a :=
      fun q hq => hslot q (List.mem_cons_of_mem p hq)
    -- the pages of the rest have no descriptor in common with `p`
    have hfresh : ∀ a, l3SlotOf m l0 p = some a → ∀ q ∈ rest, l3SlotOf m l0 q ≠ some a := by
      intro a ha q hq hqa
      rw [List.filterMap_cons, ha, List.nodup_cons] at hnodup
      exact hnodup.1 (List.mem_filterMap.mpr ⟨q, hq, hqa⟩)
    have hnodup' : (rest.filterMap (l3SlotOf m l0)).Nodup := by
      rw [List.filterMap_cons] at hnodup
      split at hnodup
      · exact hnodup
      · exact (List.nodup_cons.mp hnodup).2
    have hloop : pageLoop Prod.fst demoteVisit l0 (p :: rest) (mk, c) =
        pageLoop Prod.fst demoteVisit l0 rest
          (match l3SlotOf m l0 p with
            | some a => if rwPage m l0 p then (mk.write a (demotedEntry (m.mem a)), c + 1) else (mk, c)
            | none => (mk, c)) := by
      rw [← hstep]
      rfl
    rw [hloop]
    rcases hs : l3SlotOf m l0 p with _ | a
    · -- no L3 descriptor: nothing to demote, nothing to count
      obtain ⟨ih1, ih2⟩ := pageLoop_demote m l0 rest mk c hnodup' htab' hslot'
      refine ⟨by simp [ih1, rwPage_of_l3SlotOf_none hs], fun b => ?_⟩
      rw [ih2 b]
      simp [hs]
    by_cases hrw : rwPage m l0 p = true
    · -- a read-write page: its descriptor is demoted and counted
      simp only [hrw, if_true]
      have hmka : mk.mem a = m.mem a := hslot p List.mem_cons_self a hs
      have htab'' : ∀ q ∈ rest, l3TableOf (mk.write a (demotedEntry (m.mem a))) l0 q = l3TableOf m l0 q :=
        fun q hq => by rw [← hmka, l3TableOf_write_demoted, htab' q hq]
      have hslot'' : ∀ q ∈ rest, ∀ b, l3SlotOf m l0 q = some b →
          (mk.write a (demotedEntry (m.mem a))).mem b = m.mem b := by
        intro q hq b hb
        have hba : b ≠ a := fun h => hfresh a hs q hq (h ▸ hb)
        rw [Machine.write_mem, Function.update_of_ne hba, hslot' q hq b hb]
      obtain ⟨ih1, ih2⟩ := pageLoop_demote m l0 rest _ (c + 1) hnodup' htab'' hslot''
      refine ⟨by simp [ih1, hrw]; omega, fun b => ?_⟩
      rw [ih2 b]
      by_cases hba : b = a
      · subst hba
        have hnone : ¬∃ q ∈ rest, rwPage m l0 q = true ∧ l3SlotOf m l0 q = some b :=
          fun ⟨q, hq, _, hqb⟩ => hfresh b hs q hq hqb
        simp [hnone, hrw, hs]
      · simp [Function.update_of_ne hba, hs, Ne.symm hba]
    · -- a page that is not read-write is left as it is
      simp only [hrw, if_false, Bool.false_eq_true]
      obtain ⟨ih1, ih2⟩ := pageLoop_demote m l0 rest mk c hnodup' htab' hslot'
      refine ⟨by simp [ih1, hrw], fun b => ?_⟩
      rw [ih2 b]
      simp [hrw]

/-- `demote_range_to_ro` over a page-aligned range below `2 ^ 48` is the
per-page demotion of its pages. -/
theorem demoteRangeToRo_eq (m : Machine) (l0 : Nat) {vaStart n : Nat}
    (hva : vaStart % pageSize = 0) (hbound : vaStart + n * pageSize ≤ 2 ^ 48) :
    demoteRangeToRo m l0 vaStart n =
      some (pageLoop Prod.fst demoteVisit l0 ((List.range n).map (vaStart + · * pageSize)) (m, 0)) := by
  unfold demoteRangeToRo
  split_ifs with hn
  · simp [hn, pageLoop]
  rw [rangeEnd_of_le hbound]
  dsimp only
  have hend : (vaStart + n * pageSize) % pageSize = 0 := by simp [Nat.add_mod, hva]
  rw [rangeLoop_eq_pageLoop (fun st l3 i page q => l3TableOf_demoteVisit st l3 i page l0 q) hva hend
    (Nat.le_add_right _ _) hbound, pagesIn_add_mul]

end Demote

/-! ## The walkers against `translate_user_va` -/

/-- Over a page-aligned range below `2 ^ 48` (the `TTBR0_EL1` range, where no
addition of the walkers overflows) whose pages no block maps:
`collect_mapped_pages_sparse` lists, in increasing order, each page that
`translate_user_va` maps with its translation; `collect_mapped_pages_with_flags`
lists the same pages with their output address and AP, UXN and PXN bits; and
when the pages have distinct L3 descriptors, `demote_range_to_ro` sets the AP
bits of exactly the read-write ones to `AP_RO_ALL`, keeps every other bit, and
returns their number. -/
theorem range_walkers_agree (m : Machine) (l0 vaStart n : Nat) (hva : vaStart % pageSize = 0)
    (hbound : vaStart + n * pageSize ≤ 2 ^ 48)
    (hpages : ∀ i < n, ∀ leaf, walk m l0 (vaStart + i * pageSize) = some leaf → ∃ e, leaf = .page e) :
    collectMappedPagesSparse m l0 vaStart n = some ((List.range n).filterMap fun i =>
        (translateUserVa m l0 (vaStart + i * pageSize)).map ((vaStart + i * pageSize), ·)) ∧
    collectMappedPagesWithFlags m l0 vaStart n = some ((List.range n).filterMap fun i =>
        (pageLeafEntry (walk m l0 (vaStart + i * pageSize))).map fun e =>
          (vaStart + i * pageSize, tableAddr e, e &&& pteFlagsMask)) ∧
    ((((List.range n).map (vaStart + · * pageSize)).filterMap (l3SlotOf m l0)).Nodup →
      ∃ m', demoteRangeToRo m l0 vaStart n =
          some (m', (((List.range n).map (vaStart + · * pageSize)).filter (rwPage m l0)).length) ∧
        ∀ a, m'.mem a = if ∃ i < n, rwPage m l0 (vaStart + i * pageSize) = true ∧
            l3SlotOf m l0 (vaStart + i * pageSize) = some a then demotedEntry (m.mem a) else m.mem a) ∧
    ∀ e, demotedEntry e &&& apMask = Flags.apRoAll ∧
      demotedEntry e &&& (2 ^ 64 - 1 - apMask) = e &&& (2 ^ 64 - 1 - apMask) := by
  refine ⟨?_, collectMappedPagesWithFlags_eq m l0 hva hbound, fun hnodup => ?_,
    fun e => ⟨demotedEntry_and_apMask e, demotedEntry_and_not_apMask e⟩⟩
  · -- no page is a block, so the translation is the page descriptor's
    rw [collectMappedPagesSparse_eq m l0 hva hbound]
    congr 1
    apply List.filterMap_congr
    intro i hi
    rw [translateUserVa_of_not_block (hpages i (List.mem_range.mp hi)), Option.map_map]
    rfl
  · obtain ⟨hcount, hmem⟩ := pageLoop_demote m l0 ((List.range n).map (vaStart + · * pageSize)) m 0
      hnodup (fun _ _ => rfl) (fun _ _ _ _ => rfl)
    rw [Nat.zero_add] at hcount
    refine ⟨_, by rw [demoteRangeToRo_eq m l0 hva hbound, ← hcount], fun a => ?_⟩
    rw [hmem a]
    simp

/-- Tables at `0x1_0000` whose one page descriptor maps `0x1000` read-write
to `0x5000`. -/
def onePageTables : Machine :=
  ⟨fun a => if a = 0x1_0000 then 0x1_1003 else if a = 0x1_1000 then 0x1_2003
    else if a = 0x1_2000 then 0x1_3003 else if a = 0x1_3008 then 0x5443 else 0, []⟩

/-- Over the two pages from `0x1000`, of which the first is mapped
read-write, the sparse walk finds that page and the demotion counts it. -/
theorem range_walkers_agree_on_one_page :
    collectMappedPagesSparse onePageTables 0x1_0000 0x1000 2 = some [(0x1000, 0x5000)] ∧
      (demoteRangeToRo onePageTables 0x1_0000 0x1000 2).map Prod.snd = some 1 := by
  have hpages : ∀ i < 2, ∀ leaf, walk onePageTables 0x1_0000 (0x1000 + i * pageSize) = some leaf →
      ∃ e, leaf = .page e := by
    intro i hi leaf h
    have hwalk : walk onePageTables 0x1_0000 (0x1000 + i * pageSize) = some (.page 0x5443) ∨
        walk onePageTables 0x1_0000 (0x1000 + i * pageSize) = none := by
      interval_cases i <;> decide
    rcases hwalk with hw | hw
    · exact ⟨0x5443, Option.some.inj (hw ▸ h).symm⟩
    · exact absurd (hw ▸ h) (by simp)
  obtain ⟨h1, -, h3, -⟩ :=
    range_walkers_agree onePageTables 0x1_0000 0x1000 2 (by decide) (by norm_num [pageSize]) hpages
  obtain ⟨m', hm', -⟩ := h3 (by decide)
  have hcount : (((List.range 2).map (0x1000 + · * pageSize)).filter (rwPage onePageTables 0x1_0000)).length
      = 1 := by decide
  exact ⟨by rw [h1]; decide, by rw [hm', Option.map_some, hcount]⟩

/-- Tables whose L2 entries 0 and 1 both point to the L3 table at
`0x1_3000`, whose entry 1 maps a page read-write: `0x1000` and `0x20_1000`
share that descriptor. -/
def sharedL3Tables : Machine :=
  ⟨fun a => if a = 0x1_0000 then 0x1_1003 else if a = 0x1_1000 then 0x1_2003
    else if a = 0x1_2000 ∨ a = 0x1_2008 then 0x1_3003 else if a = 0x1_3008 then 0x5443 else 0, []⟩

set_option maxRecDepth 20000 in
/-- Without distinct L3 descriptors the count is not the number of
read-write pages: both pages `0x1000` and `0x20_1000` of the range map
read-write through one descriptor, which `demote_range_to_ro` demotes at the
first and finds read-only at the second, so it returns 1. -/
theorem demoteRangeToRo_shared_l3_counts_once :
    (((List.range 513).map (0x1000 + · * pageSize)).filter (rwPage sharedL3Tables 0x1_0000)).length = 2 ∧
      (demoteRangeToRo sharedL3Tables 0x1_0000 0x1000 513).map Prod.snd = some 1 := by
  constructor <;> decide

/-- When `va_start + pages * PAGE_SIZE` overflows a `usize`, the sparse walk
returns nothing, even for a page of the range that is mapped. -/
theorem collectMappedPagesSparse_overflow_misses_page :
    translateUserVa onePageTables 0x1_0000 0x1000 = some 0x5000 ∧
      collectMappedPagesSparse onePageTables 0x1_0000 0x1000 (2 ^ 52) = some [] := by
  constructor <;> decide

end Akuma.Mmu
