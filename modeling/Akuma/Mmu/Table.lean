import Mathlib

/-!
# AArch64 translation tables

The page-table layer of the kernel's MMU module (`mmu/types.rs` and
`mmu/mod.rs`): descriptor bits, the four-level walk of a virtual address
with a 4 KiB granule, and the functions that read, create, split and clear
descriptors.

Physical memory is a map from byte address to the 64-bit word stored there.
The kernel reaches every table through the identity map (`phys_to_virt` is
the identity), so entry `i` of the table at physical address `t` is the word
at `t + 8 * i`. Descriptors and addresses are natural numbers; the masks and
shifts are kept as the source writes them, and the lemmas at the end of the
module turn them into arithmetic.

One CPU runs the model. The compare-and-swap loops of the source compare
against the value they have just loaded, so each succeeds at its first
attempt; TLB maintenance has no effect on the tables and is left out.
-/

namespace Akuma.Mmu

/-! ## Descriptor bits (`mmu/types.rs`) -/

/-- `PAGE_SIZE`. -/
def pageSize : Nat := 4096

namespace Flags

/-- `flags::VALID`. -/
def valid : Nat := 1 <<< 0
/-- `flags::TABLE`: at L0 to L2 a table descriptor, at L3 a page descriptor. -/
def table : Nat := 1 <<< 1
/-- `flags::BLOCK`. -/
def block : Nat := 0 <<< 1
/-- `flags::AF`. -/
def af : Nat := 1 <<< 10
/-- `flags::SH_INNER`. -/
def shInner : Nat := 3 <<< 8
/-- `flags::AP_RW_EL1`: read-write at EL1, no access at EL0. -/
def apRwEl1 : Nat := 0 <<< 6
/-- `flags::AP_RW_ALL`. -/
def apRwAll : Nat := 1 <<< 6
/-- `flags::AP_RO_EL1`. -/
def apRoEl1 : Nat := 2 <<< 6
/-- `flags::AP_RO_ALL`. -/
def apRoAll : Nat := 3 <<< 6
/-- `flags::PXN`. -/
def pxn : Nat := 1 <<< 53
/-- `flags::UXN`. -/
def uxn : Nat := 1 <<< 54
/-- `flags::NG`. -/
def ng : Nat := 1 <<< 11

end Flags

/-- `MAIR_NORMAL_WB`. -/
def mairNormalWb : Nat := 3

/-- `attr_index`. -/
def attrIndex (idx : Nat) : Nat := (idx &&& 0x7) <<< 2

namespace UserFlags

/-- `user_flags::NONE`. -/
def none : Nat := Flags.apRoEl1 ||| Flags.uxn ||| Flags.pxn
/-- `user_flags::RO`. -/
def ro : Nat := Flags.apRoAll
/-- `user_flags::RW`. -/
def rw : Nat := Flags.apRwAll
/-- `user_flags::RW_NO_EXEC`. -/
def rwNoExec : Nat := Flags.apRwAll ||| Flags.uxn ||| Flags.pxn
/-- `user_flags::RX`. -/
def rx : Nat := Flags.apRoAll ||| Flags.pxn

/-- `user_flags::from_prot`. -/
def fromProt (prot : Nat) : Nat :=
  if prot = 0 then none
  else match (prot &&& 0x2 != 0, prot &&& 0x4 != 0) with
    | (true, _) => rwNoExec
    | (false, true) => rx
    | (false, false) => ro

/-- `user_flags::is_none`. -/
def isNone (flags : Nat) : Bool := flags == none

end UserFlags

/-- The output-address field `0x0000_FFFF_FFFF_F000` of a table or page
descriptor, as every walk of the source masks it. -/
def tableAddr (entry : Nat) : Nat := entry &&& 0x0000_FFFF_FFFF_F000

/-- `x & !(PAGE_SIZE - 1)` on a 64-bit `usize`, whose `!(PAGE_SIZE - 1)` is
`2 ^ 64 - PAGE_SIZE`: the start of the page of `x`. -/
def pageAlignDown (x : Nat) : Nat := x &&& (2 ^ 64 - pageSize)

/-- `(va >> 39) & 0x1FF`, the L0 index every walk computes. -/
def l0Index (va : Nat) : Nat := (va >>> 39) &&& 0x1FF
/-- `(va >> 30) & 0x1FF`. -/
def l1Index (va : Nat) : Nat := (va >>> 30) &&& 0x1FF
/-- `(va >> 21) & 0x1FF`. -/
def l2Index (va : Nat) : Nat := (va >>> 21) &&& 0x1FF
/-- `(va >> 12) & 0x1FF`. -/
def l3Index (va : Nat) : Nat := (va >>> 12) &&& 0x1FF

/-! ## Physical memory and the frame allocator -/

/-- Physical memory and the frames the physical allocator still holds, in
the order `alloc_page_zeroed` hands them out. -/
structure Machine where
  mem : Nat → Nat
  free : List Nat

namespace Machine

/-- Entry `i` of the table at `t`: `t.add(i).read_volatile()`. -/
def entry (m : Machine) (t i : Nat) : Nat := m.mem (t + 8 * i)

/-- The store of the word `v` at `a`. -/
def write (m : Machine) (a v : Nat) : Machine :=
  { m with mem := Function.update m.mem a v }

/-- `t.add(i).write_volatile(v)`. -/
def setEntry (m : Machine) (t i v : Nat) : Machine := m.write (t + 8 * i) v

/-- Memory with the 4 KiB frame at `f` cleared. -/
def zeroPage (mem : Nat → Nat) (f : Nat) : Nat → Nat :=
  fun a => if f ≤ a ∧ a < f + pageSize then 0 else mem a

/-- `alloc_page_zeroed`: the next free frame, cleared; `None` when physical
memory is exhausted. -/
def allocPageZeroed (m : Machine) : Option (Nat × Machine) :=
  match m.free with
  | [] => none
  | f :: rest => some (f, { mem := zeroPage m.mem f, free := rest })

@[simp] theorem write_mem (m : Machine) (a v : Nat) :
    (m.write a v).mem = Function.update m.mem a v := rfl

@[simp] theorem write_free (m : Machine) (a v : Nat) : (m.write a v).free = m.free := rfl

@[simp] theorem entry_setEntry_self (m : Machine) (t i v : Nat) :
    (m.setEntry t i v).entry t i = v := by
  simp [entry, setEntry]

end Machine

/-! ## Walks that read the tables -/

section Walks

variable (m : Machine)

/-- `is_page_mapped_ptr`: whether the walk of `va` from the L0 table at `l0`
ends at a valid descriptor. A block descriptor at L1 or L2 counts as mapped
whatever its access permissions. -/
def isPageMappedPtr (l0 va : Nat) : Bool :=
  let l0Entry := m.entry l0 (l0Index va)
  if l0Entry &&& Flags.valid = 0 then false else
  let l1Entry := m.entry (tableAddr l0Entry) (l1Index va)
  if l1Entry &&& Flags.valid = 0 then false else
  if l1Entry &&& Flags.table = 0 then true else
  let l2Entry := m.entry (tableAddr l1Entry) (l2Index va)
  if l2Entry &&& Flags.valid = 0 then false else
  if l2Entry &&& Flags.table = 0 then true else
  let l3Entry := m.entry (tableAddr l2Entry) (l3Index va)
  l3Entry &&& Flags.valid != 0

/-- `is_current_user_page_mapped`: the walk of the page of `va` in the table
that `TTBR0_EL1` holds; `false` while no user table is installed. -/
def isCurrentUserPageMapped (ttbr0 va : Nat) : Bool :=
  if ttbr0 = 0 then false
  else isPageMappedPtr m (ttbr0 &&& 0x0000_FFFF_FFFF_F000) (pageAlignDown va)

/-- `translate_user_va`: the physical address `va` translates to. Blocks
keep the offset of `va` inside the 1 GiB or 2 MiB region they map. -/
def translateUserVa (l0 va : Nat) : Option Nat :=
  let offset := va &&& 0xFFF
  let l0Entry := m.entry l0 (l0Index va)
  if l0Entry &&& Flags.valid = 0 then none else
  let l1Entry := m.entry (tableAddr l0Entry) (l1Index va)
  if l1Entry &&& Flags.valid = 0 then none else
  if l1Entry &&& Flags.table = 0 then
    some ((l1Entry &&& 0x0000_FFFF_C000_0000) ||| (va &&& 0x3FFF_FFFF)) else
  let l2Entry := m.entry (tableAddr l1Entry) (l2Index va)
  if l2Entry &&& Flags.valid = 0 then none else
  if l2Entry &&& Flags.table = 0 then
    some ((l2Entry &&& 0x0000_FFFF_FFE0_0000) ||| (va &&& 0x1F_FFFF)) else
  let l3Entry := m.entry (tableAddr l2Entry) (l3Index va)
  if l3Entry &&& Flags.valid = 0 then none else
  some (tableAddr l3Entry ||| offset)

/-! ## The architectural walk

What the walks above are checked against: the descriptor that maps `va`,
found as the MMU finds it. Like the kernel's walks, it reads a valid L0
descriptor as a table descriptor; the tables the kernel builds hold no
other kind at L0. -/

/-- A descriptor that ends a walk: a 1 GiB block at L1, a 2 MiB block at
L2, or a 4 KiB page at L3. -/
inductive Leaf where
  | block1G (entry : Nat)
  | block2M (entry : Nat)
  | page (entry : Nat)
  deriving DecidableEq, Repr

/-- The descriptor word of a leaf. -/
def Leaf.entry : Leaf → Nat
  | .block1G e | .block2M e | .page e => e

/-- The physical address a leaf maps `va` to. -/
def Leaf.outputAddr (va : Nat) : Leaf → Nat
  | .block1G e => (e &&& 0x0000_FFFF_C000_0000) ||| (va &&& 0x3FFF_FFFF)
  | .block2M e => (e &&& 0x0000_FFFF_FFE0_0000) ||| (va &&& 0x1F_FFFF)
  | .page e => tableAddr e ||| (va &&& 0xFFF)

/-- The descriptor that maps `va` in the tables rooted at `l0`. -/
def walk (l0 va : Nat) : Option Leaf :=
  let l0Entry := m.entry l0 (l0Index va)
  if l0Entry &&& Flags.valid = 0 then none else
  let l1Entry := m.entry (tableAddr l0Entry) (l1Index va)
  if l1Entry &&& Flags.valid = 0 then none else
  if l1Entry &&& Flags.table = 0 then some (.block1G l1Entry) else
  let l2Entry := m.entry (tableAddr l1Entry) (l2Index va)
  if l2Entry &&& Flags.valid = 0 then none else
  if l2Entry &&& Flags.table = 0 then some (.block2M l2Entry) else
  let l3Entry := m.entry (tableAddr l2Entry) (l3Index va)
  if l3Entry &&& Flags.valid = 0 then none else some (.page l3Entry)

/-- Whether a program at EL0 may read `va`: `AP[1]`, bit 6 of the
descriptor that maps it, is set (`AP_RW_ALL` or `AP_RO_ALL`). -/
def el0Readable (l0 va : Nat) : Bool :=
  match walk m l0 va with
  | some l => (l.entry >>> 6) &&& 1 = 1
  | none => false

/-- Whether a program at EL0 may write `va`: `AP[2:1] = 0b01`
(`AP_RW_ALL`). -/
def el0Writable (l0 va : Nat) : Bool :=
  match walk m l0 va with
  | some l => (l.entry >>> 6) &&& 3 = 1
  | none => false

/-- `is_page_mapped_ptr` asks only whether some descriptor maps `va`, not
what it permits. -/
theorem isPageMappedPtr_eq_isSome_walk (l0 va : Nat) :
    isPageMappedPtr m l0 va = (walk m l0 va).isSome := by
  unfold isPageMappedPtr walk
  dsimp only
  split_ifs <;> simp_all

/-- `translate_user_va` is the output address of the descriptor that maps
`va`. -/
theorem translateUserVa_eq_walk (l0 va : Nat) :
    translateUserVa m l0 va = (walk m l0 va).map (Leaf.outputAddr va) := by
  unfold translateUserVa walk
  dsimp only
  split_ifs <;> simp_all [Leaf.outputAddr]

/-- The addresses of the descriptors the walk of `va` reads, from the L0
entry down to the one it stops at. -/
def walkReads (l0 va : Nat) : List Nat :=
  let l0Entry := m.entry l0 (l0Index va)
  (l0 + 8 * l0Index va) ::
  if l0Entry &&& Flags.valid = 0 then [] else
  let l1Entry := m.entry (tableAddr l0Entry) (l1Index va)
  (tableAddr l0Entry + 8 * l1Index va) ::
  if l1Entry &&& Flags.valid = 0 ∨ l1Entry &&& Flags.table = 0 then [] else
  let l2Entry := m.entry (tableAddr l1Entry) (l2Index va)
  (tableAddr l1Entry + 8 * l2Index va) ::
  if l2Entry &&& Flags.valid = 0 ∨ l2Entry &&& Flags.table = 0 then [] else
  [tableAddr l2Entry + 8 * l3Index va]

/-- A store to a word that the walk of `va` does not read leaves the walk
as it was. -/
theorem walk_write_of_not_mem {l0 va a v : Nat} (h : a ∉ walkReads m l0 va) :
    walk (m.write a v) l0 va = walk m l0 va := by
  have hne : ∀ t i, t + 8 * i ≠ a → (m.write a v).entry t i = m.entry t i := fun t i hti =>
    Function.update_of_ne hti _ _
  unfold walkReads at h
  unfold walk
  dsimp only at h ⊢
  -- each level reads an entry the store misses, so it reads what it read before
  simp only [List.mem_cons, not_or] at h
  obtain ⟨h0, h⟩ := h
  rw [hne _ _ (Ne.symm h0)]
  by_cases v0 : m.entry l0 (l0Index va) &&& Flags.valid = 0
  · simp only [v0, if_true]
  simp only [v0, if_false, List.mem_cons, not_or] at h ⊢
  obtain ⟨h1, h⟩ := h
  rw [hne _ _ (Ne.symm h1)]
  by_cases v1 : m.entry (tableAddr (m.entry l0 (l0Index va))) (l1Index va) &&& Flags.valid = 0 ∨
      m.entry (tableAddr (m.entry l0 (l0Index va))) (l1Index va) &&& Flags.table = 0
  · rcases v1 with v1 | v1 <;> simp [v1]
  rw [not_or] at v1
  simp only [v1.1, v1.2, or_self, if_false, List.mem_cons, not_or] at h ⊢
  obtain ⟨h2, h⟩ := h
  rw [hne _ _ (Ne.symm h2)]
  split_ifs at h with v2
  · rcases v2 with v2 | v2 <;> simp [v2]
  rw [not_or] at v2
  simp only [v2.1, v2.2, if_false]
  rw [hne _ _ (Ne.symm (List.mem_singleton.not.mp h))]

end Walks

/-! ## Walk indices as arithmetic

The walks read bits 12 to 47 of a virtual address and nothing else: two
addresses that agree there are walked alike, in particular `va` and
`va % 2 ^ 48`, and an address and the start of its page. -/

section Indices

theorem l0Index_eq (va : Nat) : l0Index va = va / 2 ^ 39 % 512 := by
  rw [l0Index, Nat.shiftRight_eq_div_pow, show (0x1FF : Nat) = 2 ^ 9 - 1 by norm_num,
    Nat.and_two_pow_sub_one_eq_mod]

theorem l1Index_eq (va : Nat) : l1Index va = va / 2 ^ 30 % 512 := by
  rw [l1Index, Nat.shiftRight_eq_div_pow, show (0x1FF : Nat) = 2 ^ 9 - 1 by norm_num,
    Nat.and_two_pow_sub_one_eq_mod]

theorem l2Index_eq (va : Nat) : l2Index va = va / 2 ^ 21 % 512 := by
  rw [l2Index, Nat.shiftRight_eq_div_pow, show (0x1FF : Nat) = 2 ^ 9 - 1 by norm_num,
    Nat.and_two_pow_sub_one_eq_mod]

theorem l3Index_eq (va : Nat) : l3Index va = va / 2 ^ 12 % 512 := by
  rw [l3Index, Nat.shiftRight_eq_div_pow, show (0x1FF : Nat) = 2 ^ 9 - 1 by norm_num,
    Nat.and_two_pow_sub_one_eq_mod]

/-- Two addresses with the same four walk indices. -/
def SameIndices (va va' : Nat) : Prop :=
  l0Index va = l0Index va' ∧ l1Index va = l1Index va' ∧
    l2Index va = l2Index va' ∧ l3Index va = l3Index va'

theorem sameIndices_mod_pow48 (va : Nat) : SameIndices (va % 2 ^ 48) va := by
  simp only [SameIndices, l0Index_eq, l1Index_eq, l2Index_eq, l3Index_eq]
  omega

/-- Clearing the low `k` bits of a 64-bit word rounds it down to a multiple
of `2 ^ k`. -/
theorem and_two_pow_sub_two_pow {x k : Nat} (hk : k ≤ 64) (h : x < 2 ^ 64) :
    x &&& (2 ^ 64 - 2 ^ k) = x / 2 ^ k * 2 ^ k := by
  have hm : (2 ^ 64 - 2 ^ k : Nat) = (2 ^ (64 - k) - 1) * 2 ^ k := by
    rw [Nat.sub_mul, Nat.one_mul, ← Nat.pow_add, Nat.sub_add_cancel hk]
  rw [hm]
  apply Nat.eq_of_testBit_eq
  intro i
  simp only [Nat.testBit_and, Nat.testBit_mul_two_pow, Nat.testBit_div_two_pow,
    Nat.testBit_two_pow_sub_one]
  -- bits below `k` are cleared; bits from 64 on are clear in `x` already
  by_cases hi : k ≤ i
  · by_cases h64 : i < 64
    · simp [hi, Nat.sub_add_cancel hi]
      omega
    · have hpow : 2 ^ 64 ≤ 2 ^ i := Nat.pow_le_pow_right (by norm_num) (by omega)
      have : x.testBit i = false := Nat.testBit_lt_two_pow (lt_of_lt_of_le h hpow)
      simp [hi, Nat.sub_add_cancel hi, this]
  · simp [hi]

theorem pageAlignDown_eq {x : Nat} (h : x < 2 ^ 64) : pageAlignDown x = x / 4096 * 4096 := by
  rw [pageAlignDown, pageSize, show (4096 : Nat) = 2 ^ 12 by norm_num]
  exact and_two_pow_sub_two_pow (by norm_num) h

theorem sameIndices_pageAlignDown {va : Nat} (h : va < 2 ^ 64) :
    SameIndices (pageAlignDown va) va := by
  simp only [SameIndices, pageAlignDown_eq h, l0Index_eq, l1Index_eq, l2Index_eq, l3Index_eq]
  omega

variable (m : Machine)

theorem walk_congr {l0 va va' : Nat} (h : SameIndices va va') : walk m l0 va = walk m l0 va' := by
  obtain ⟨h0, h1, h2, h3⟩ := h
  simp only [walk, h0, h1, h2, h3]

theorem isPageMappedPtr_pageAlignDown {l0 va : Nat} (h : va < 2 ^ 64) :
    isPageMappedPtr m l0 (pageAlignDown va) = isPageMappedPtr m l0 va := by
  rw [isPageMappedPtr_eq_isSome_walk, isPageMappedPtr_eq_isSome_walk,
    walk_congr m (sameIndices_pageAlignDown h)]

/-- Two addresses of one page are walked alike. -/
theorem isPageMappedPtr_of_same_page {l0 va va' : Nat} (h : va < 2 ^ 64) (h' : va' < 2 ^ 64)
    (hpage : va / 4096 = va' / 4096) :
    isPageMappedPtr m l0 va = isPageMappedPtr m l0 va' := by
  rw [← isPageMappedPtr_pageAlignDown m h, ← isPageMappedPtr_pageAlignDown m h',
    pageAlignDown_eq h, pageAlignDown_eq h', hpage]

/-- `is_current_user_page_mapped` is the walk of `va` itself in the table
of `ttbr0`. -/
theorem isCurrentUserPageMapped_eq {ttbr0 va : Nat} (hne : ttbr0 ≠ 0) (h : va < 2 ^ 64) :
    isCurrentUserPageMapped m ttbr0 va =
      isPageMappedPtr m (ttbr0 &&& 0x0000_FFFF_FFFF_F000) va := by
  rw [isCurrentUserPageMapped, if_neg hne, isPageMappedPtr_pageAlignDown m h]

theorem isCurrentUserPageMapped_pageAlignDown {ttbr0 va : Nat} (h : va < 2 ^ 64) :
    isCurrentUserPageMapped m ttbr0 (pageAlignDown va) = isCurrentUserPageMapped m ttbr0 va := by
  have hle : pageAlignDown va < 2 ^ 64 := by rw [pageAlignDown_eq h]; omega
  by_cases hne : ttbr0 = 0
  · simp [isCurrentUserPageMapped, hne]
  · rw [isCurrentUserPageMapped_eq m hne hle, isCurrentUserPageMapped_eq m hne h,
      isPageMappedPtr_pageAlignDown m h]

end Indices

/-! ## Creating and splitting tables -/

/-- Writes `f i` into entries `0 .. n` of the table at `t`, in order: the
`for i in 0..n` loops that fill a table. -/
def fillEntries (m : Machine) (t : Nat) (f : Nat → Nat) : Nat → Machine
  | 0 => m
  | n + 1 => (fillEntries m t f n).setEntry t n (f n)

/-- `shatter_block_to_pages`: fill the L3 table at `l3Frame` with the 512
page descriptors of the 2 MiB block descriptor `blockEntry`, keeping its
attributes. -/
def shatterBlockToPages (m : Machine) (l3Frame blockEntry : Nat) : Machine :=
  let blockPa := blockEntry &&& 0x0000_FFFF_FFE0_0000
  let attrs := blockEntry &&& 0xFFF0_0000_0000_0FFC
  fillEntries m l3Frame
    (fun i => (blockPa + (i <<< 12)) ||| attrs ||| Flags.valid ||| Flags.table) 512

/-- What `get_or_create_table_atomic` returns: the next-level table's
address, the frame it allocated if any, and the machine after. -/
structure TableStep where
  addr : Nat
  frame : Option Nat
  machine : Machine

/-- `get_or_create_table_atomic`: the table that entry `idx` of the table at
`t` points to, made if the entry is invalid and split from the block if the
entry is a block. Out of memory it returns address `0` and no frame, and its
callers go on walking from physical address `0`. -/
def getOrCreateTableAtomic (m : Machine) (t idx : Nat) : TableStep :=
  let entry := m.entry t idx
  if entry &&& Flags.valid ≠ 0 then
    if entry &&& Flags.table = 0 then
      match m.allocPageZeroed with
      | some (frame, m') =>
        let m' := shatterBlockToPages m' frame entry
        ⟨frame, some frame, m'.setEntry t idx (frame ||| Flags.valid ||| Flags.table)⟩
      | none => ⟨0, none, m⟩
    else ⟨tableAddr entry, none, m⟩
  else
    match m.allocPageZeroed with
    | some (frame, m') =>
      ⟨frame, some frame, m'.setEntry t idx (frame ||| Flags.valid ||| Flags.table)⟩
    | none => ⟨0, none, m⟩

/-- The page descriptor `map_page` and `map_user_page` install for `pa`. -/
def userPageEntry (pa userFlags : Nat) : Nat :=
  pa ||| Flags.valid ||| Flags.table ||| Flags.af ||| Flags.ng |||
    attrIndex mairNormalWb ||| Flags.shInner ||| userFlags

/-- What `map_user_page` returns: the table frames it allocated, whether it
installed the page, and the machine after. -/
structure MapResult where
  tables : List Nat
  installed : Bool
  machine : Machine

/-- `map_user_page` on the table that `TTBR0_EL1` holds. A page that is
already mapped is left alone and reported as not installed. -/
def mapUserPage (m : Machine) (ttbr0 va pa userFlags : Nat) : MapResult :=
  let l0Addr := ttbr0 &&& 0x0000_FFFF_FFFF_F000
  let r1 := getOrCreateTableAtomic m l0Addr (l0Index va)
  let r2 := getOrCreateTableAtomic r1.machine r1.addr (l1Index va)
  let r3 := getOrCreateTableAtomic r2.machine r2.addr (l2Index va)
  let tables := r1.frame.toList ++ r2.frame.toList ++ r3.frame.toList
  let existing := r3.machine.entry r3.addr (l3Index va)
  if existing &&& Flags.valid ≠ 0 then ⟨tables, false, r3.machine⟩
  else ⟨tables, true, r3.machine.setEntry r3.addr (l3Index va) (userPageEntry pa userFlags)⟩

/-- `map_user_page_no_flush`: `map_user_page` without the TLB invalidation,
which the model does not represent. -/
def mapUserPageNoFlush (m : Machine) (ttbr0 va pa userFlags : Nat) : MapResult :=
  mapUserPage m ttbr0 va pa userFlags

/-! ## Out of memory in the walk -/

theorem l1Index_lt (va : Nat) : l1Index va < 512 :=
  Nat.lt_succ_of_le (Nat.and_le_right)

theorem l2Index_lt (va : Nat) : l2Index va < 512 :=
  Nat.lt_succ_of_le (Nat.and_le_right)

theorem l3Index_lt (va : Nat) : l3Index va < 512 :=
  Nat.lt_succ_of_le (Nat.and_le_right)

/-- With no frame left, an invalid entry gives address `0`, no frame, and
the machine as it was. -/
theorem getOrCreateTableAtomic_of_out_of_memory {m : Machine} {t idx : Nat} (hfree : m.free = [])
    (hinv : m.entry t idx &&& Flags.valid = 0) : getOrCreateTableAtomic m t idx = ⟨0, none, m⟩ := by
  simp [getOrCreateTableAtomic, hinv, Machine.allocPageZeroed, hfree]

/-- `map_user_page` out of memory at its first table: the walk goes on from
physical address `0`. Where the table there is empty, the page is reported
installed and its descriptor is written into the frame at address `0`. -/
theorem mapUserPage_out_of_memory_writes_frame_zero (m : Machine) (ttbr0 va pa userFlags : Nat)
    (hfree : m.free = [])
    (hl0 : m.entry (ttbr0 &&& 0x0000_FFFF_FFFF_F000) (l0Index va) &&& Flags.valid = 0)
    (hzero : ∀ i < 512, m.entry 0 i &&& Flags.valid = 0) :
    mapUserPage m ttbr0 va pa userFlags =
      ⟨[], true, m.setEntry 0 (l3Index va) (userPageEntry pa userFlags)⟩ := by
  -- every level finds an invalid entry and no frame to fill it with
  have h1 := getOrCreateTableAtomic_of_out_of_memory hfree hl0
  have h2 := getOrCreateTableAtomic_of_out_of_memory hfree (hzero _ (l1Index_lt va))
  have h3 := getOrCreateTableAtomic_of_out_of_memory hfree (hzero _ (l2Index_lt va))
  simp only [mapUserPage, h1, h2, h3, Option.toList_none, List.append_nil]
  rw [if_neg (by simpa using hzero _ (l3Index_lt va))]

/-- A machine with no free frame and zeroed memory: mapping `0x40_0000`
through the table at `0x1000` writes entry `0` of the frame at `0`. -/
theorem mapUserPage_out_of_memory_on_zeroed_machine :
    mapUserPage ⟨fun _ => 0, []⟩ 0x1000 0x40_0000 0x5000 UserFlags.rw =
      ⟨[], true, (⟨fun _ => 0, []⟩ : Machine).setEntry 0 (l3Index 0x40_0000)
        (userPageEntry 0x5000 UserFlags.rw)⟩ :=
  mapUserPage_out_of_memory_writes_frame_zero _ _ _ _ _ rfl (by decide) fun _ _ => by simp [Machine.entry]

end Akuma.Mmu
