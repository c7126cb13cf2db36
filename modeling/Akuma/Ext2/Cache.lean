import Akuma.Ext2.Dir
import Akuma.Lib.Cache
import Akuma.Lib.OrdMap

/-!
# The block caches

The two block caches of `akuma-ext2/src/ext2.rs` behind `read_block` and
`write_block`. `BlockRingCache` has 64 slots, reused in ring order.
`ClockBlockCache` allocates slots up to a capacity and then reuses them by a
clock (second-chance) sweep; a `BTreeMap` indexes its slots by block
number. Both keep the bytes of all slots in one flat buffer, and both tag
an empty slot `u32::MAX`.

Each cache refines the contents semantics of `Cache` for the operations
the block layer issues on blocks below `u32::MAX`, from the states its
invariant `Valid` admits (`ringRefines`, `clockRefines`). The clock's
invariant is the representation invariant of the source's comments: the
index maps a block to a slot exactly when the slot's tag is that block.
-/

namespace Akuma.Ext2

open Cache

/-- `u32::MAX`, the tag of an empty slot. -/
def u32Max : Nat := 0xFFFF_FFFF

/-- `BLOCK_CACHE_ENTRIES`. -/
def blockCacheEntries : Nat := 64

/-- The bytes of slot `slot` of a flat buffer of `blockSize`-byte slots:
`&backing[s..s + block_size]` with `s = slot * block_size`. -/
def slotData (backing : List UInt8) (blockSize slot : Nat) : List UInt8 :=
  (backing.drop (slot * blockSize)).take blockSize

/-- An operation the block layer issues: it names a block below
`u32::MAX`, and an insert carries a block of `blockSize` bytes. -/
def BlockOpOk (blockSize : Nat) : Op Nat (List UInt8) → Prop
  | .get b => b ≠ u32Max
  | .insert b data => b ≠ u32Max ∧ data.length = blockSize
  | .remove b => b ≠ u32Max

instance (blockSize : Nat) : DecidablePred (BlockOpOk blockSize)
  | .get b => inferInstanceAs (Decidable (b ≠ u32Max))
  | .insert b data => inferInstanceAs (Decidable (b ≠ u32Max ∧ data.length = blockSize))
  | .remove b => inferInstanceAs (Decidable (b ≠ u32Max))

/-! ## Slots of the flat buffer -/

section Slots

variable {backing data : List UInt8} {blockSize slot : Nat}

theorem getElem?_writeBytes {data bytes : List UInt8} {offset : Nat}
    (h : offset + bytes.length ≤ data.length) (m : Nat) :
    (writeBytes data offset bytes)[m]? =
      if m < offset then data[m]? else if m < offset + bytes.length then bytes[m - offset]? else data[m]? := by
  unfold writeBytes
  rw [List.getElem?_append, List.getElem?_append, List.getElem?_take, List.getElem?_drop]
  simp only [List.length_append, List.length_take, show min offset data.length = offset by omega]
  split_ifs <;> first | rfl | omega | (congr 1; omega)

theorem length_writeBytes {bytes : List UInt8} {offset : Nat}
    (h : offset + bytes.length ≤ data.length) : (writeBytes data offset bytes).length = data.length := by
  simp only [writeBytes, List.length_append, List.length_take, List.length_drop]
  omega

theorem slotData_writeBytes_self (hlen : slot * blockSize + blockSize ≤ backing.length)
    (hdata : data.length = blockSize) :
    slotData (writeBytes backing (slot * blockSize) data) blockSize slot = data := by
  apply List.ext_getElem?
  intro n
  rw [slotData, List.getElem?_take, List.getElem?_drop, getElem?_writeBytes (by omega)]
  split_ifs
  · omega
  · congr 1
    omega
  · omega
  · exact (List.getElem?_eq_none (by omega)).symm

theorem slotData_writeBytes_ne {other : Nat} (hlen : slot * blockSize + blockSize ≤ backing.length)
    (hdata : data.length = blockSize) (hne : other ≠ slot) :
    slotData (writeBytes backing (slot * blockSize) data) blockSize other =
      slotData backing blockSize other := by
  -- the two slots do not overlap
  have hsep : other * blockSize + blockSize ≤ slot * blockSize ∨
      slot * blockSize + blockSize ≤ other * blockSize := by
    rcases Nat.lt_or_gt_of_ne hne with h | h
    · exact .inl (by simpa [Nat.succ_mul] using Nat.mul_le_mul_right blockSize (Nat.succ_le_of_lt h))
    · exact .inr (by simpa [Nat.succ_mul] using Nat.mul_le_mul_right blockSize (Nat.succ_le_of_lt h))
  apply List.ext_getElem?
  intro n
  rw [slotData, slotData, List.getElem?_take, List.getElem?_take, List.getElem?_drop,
    List.getElem?_drop, getElem?_writeBytes (by omega)]
  split_ifs <;> first | rfl | omega

theorem slot_end_le {slot slots : Nat} (h : slot < slots) :
    slot * blockSize + blockSize ≤ slots * blockSize := by
  simpa [Nat.succ_mul] using Nat.mul_le_mul_right blockSize (Nat.succ_le_of_lt h)

end Slots

/-- No block number other than `u32::MAX` tags two slots. -/
def TagsDistinct (tags : List Nat) : Prop :=
  ∀ (i j b : Nat), tags[i]? = some b → tags[j]? = some b → b ≠ u32Max → i = j

theorem TagsDistinct.set {tags : List Nat} (h : TagsDistinct tags) {slot b : Nat}
    (hb : b = u32Max ∨ b ∉ tags) : TagsDistinct (tags.set slot b) := by
  intro i j x hi hj hx
  rw [List.getElem?_set] at hi hj
  -- a slot other than `slot` that holds the new tag would put it in the old tags
  have hold : ∀ k : Nat, tags[k]? = some x → x ≠ b := by
    rintro k hk rfl
    rcases hb with rfl | hb
    · exact hx rfl
    · exact hb (List.mem_of_getElem? hk)
  split_ifs at hi hj with h₁ h₂ h₃ h₄ h₅ <;> first | omega | skip
  · cases hi
    exact absurd rfl (hold j hj)
  · cases hj
    exact absurd rfl (hold i hi)
  · exact h i j x hi hj hx

/-! ## BlockRingCache -/

/-- `BlockRingCache`. -/
structure BlockRingCache where
  backing : List UInt8
  tags : List Nat
  head : Nat
  blockSize : Nat
  deriving DecidableEq, Repr

namespace BlockRingCache

/-- `BlockRingCache::new`: every slot empty, its bytes zero. -/
def new (blockSize : Nat) : BlockRingCache :=
  ⟨List.replicate (blockCacheEntries * blockSize) 0, List.replicate blockCacheEntries u32Max, 0,
    blockSize⟩

/-- `get`: the bytes of the first slot tagged `blockNum`. -/
def get (c : BlockRingCache) (blockNum : Nat) : Option (List UInt8) :=
  (c.tags.idxOf? blockNum).map (slotData c.backing c.blockSize)

/-- `insert`: nothing if a slot is tagged `blockNum` already; otherwise the
slot at `head` takes the block and `head` moves on. The slice of the slot
and `copy_from_slice` abort unless the slot lies in the buffer and the data
has `block_size` bytes. -/
def insert (c : BlockRingCache) (blockNum : Nat) (data : List UInt8) : Option BlockRingCache :=
  if blockNum ∈ c.tags then some c
  else if c.head < c.tags.length ∧ c.head * c.blockSize + c.blockSize ≤ c.backing.length ∧
      data.length = c.blockSize then
    some { c with
      tags := c.tags.set c.head blockNum
      backing := writeBytes c.backing (c.head * c.blockSize) data
      head := (c.head + 1) % blockCacheEntries }
  else none

/-- `remove`: the first slot tagged `blockNum` becomes empty; its bytes
stay. -/
def remove (c : BlockRingCache) (blockNum : Nat) : BlockRingCache :=
  match c.tags.idxOf? blockNum with
  | some i => { c with tags := c.tags.set i u32Max }
  | none => c

/-- What the cache answers for: the blocks of its tagged slots. An empty
slot's tag is not a block it holds. -/
def contents (c : BlockRingCache) (blockNum : Nat) : Option (List UInt8) :=
  if blockNum = u32Max then none else c.get blockNum

/-- The shape `new` gives and every operation keeps: 64 tags, `head` among
them, a slot of bytes per tag, and no block in two slots. -/
structure Valid (c : BlockRingCache) : Prop where
  tags_length : c.tags.length = blockCacheEntries
  head_lt : c.head < blockCacheEntries
  backing_length : c.backing.length = blockCacheEntries * c.blockSize
  tags_distinct : TagsDistinct c.tags

theorem valid_new (blockSize : Nat) : (new blockSize).Valid where
  tags_length := by simp [new]
  head_lt := by simp [new, blockCacheEntries]
  backing_length := by simp [new]
  tags_distinct := by
    intro i j b hi _ hb
    simp only [new, List.getElem?_replicate] at hi
    split_ifs at hi
    cases hi
    exact absurd rfl hb

variable {c : BlockRingCache} {b i : Nat}

theorem get_of_not_mem (h : b ∉ c.tags) : c.get b = none := by
  simp [get, List.idxOf?_eq_none_iff.mpr h]

/-- A new cache answers for no block. -/
theorem contents_new (blockSize : Nat) : (new blockSize).contents = fun _ => none := by
  funext b
  unfold contents
  split_ifs with hb
  · rfl
  · have hmem : b ∉ (new blockSize).tags := by simp [new, List.mem_replicate, hb]
    simp [get_of_not_mem hmem]

theorem Valid.get_of_tag (hv : c.Valid) (h : c.tags[i]? = some b) (hb : b ≠ u32Max) :
    c.get b = some (slotData c.backing c.blockSize i) := by
  have hi : i < c.tags.length := (List.getElem?_eq_some_iff.mp h).1
  have hidx : c.tags.idxOf? b = some i := by
    refine List.idxOf?_eq_some_iff.mpr ⟨hi, (List.getElem?_eq_some_iff.mp h).2, ?_⟩
    -- an earlier slot with the same tag would be a second slot of `b`
    intro j hj hjb
    have := hv.tags_distinct j i b (List.getElem?_eq_some_iff.mpr ⟨by omega, hjb⟩) h hb
    omega
  simp [get, hidx]

theorem Valid.contents_of_tag (hv : c.Valid) (h : c.tags[i]? = some b) (hb : b ≠ u32Max) :
    c.contents b = some (slotData c.backing c.blockSize i) := by
  simp [contents, hb, hv.get_of_tag h hb]

theorem contents_of_not_mem (h : b ∉ c.tags) : c.contents b = none := by
  simp [contents, get_of_not_mem h]

theorem contents_ne_none_of_mem (hv : c.Valid) (h : b ∈ c.tags) (hb : b ≠ u32Max) :
    c.contents b ≠ none := by
  obtain ⟨i, hi, rfl⟩ := List.getElem_of_mem h
  simp [hv.contents_of_tag (List.getElem?_eq_some_iff.mpr ⟨hi, rfl⟩) hb]

/-- Two valid caches answer alike for a block that tags the same slots in
both, when those slots hold the same bytes. -/
theorem Valid.contents_congr {c' : BlockRingCache} (hv : c.Valid) (hv' : c'.Valid)
    (hb : b ≠ u32Max) (htags : ∀ j : Nat, c'.tags[j]? = some b ↔ c.tags[j]? = some b)
    (hdata : ∀ j : Nat, c.tags[j]? = some b →
      slotData c'.backing c'.blockSize j = slotData c.backing c.blockSize j) :
    c'.contents b = c.contents b := by
  by_cases hmem : b ∈ c.tags
  · obtain ⟨j, hj⟩ := List.mem_iff_getElem?.mp hmem
    rw [hv.contents_of_tag hj hb, hv'.contents_of_tag ((htags j).mpr hj) hb, hdata j hj]
  · have hmem' : b ∉ c'.tags := fun h =>
      hmem (List.mem_of_getElem? ((htags _).mp (List.mem_iff_getElem?.mp h).choose_spec))
    rw [contents_of_not_mem hmem, contents_of_not_mem hmem']

theorem Valid.insert_of_not_mem (hv : c.Valid) (hb : b ∉ c.tags) {data : List UInt8}
    (hdata : data.length = c.blockSize) :
    c.insert b data = some { c with
      tags := c.tags.set c.head b
      backing := writeBytes c.backing (c.head * c.blockSize) data
      head := (c.head + 1) % blockCacheEntries } := by
  have hslot : c.head * c.blockSize + c.blockSize ≤ c.backing.length := by
    rw [hv.backing_length]
    exact slot_end_le hv.head_lt
  rw [insert, if_neg hb, if_pos ⟨by rw [hv.tags_length]; exact hv.head_lt, hslot, hdata⟩]

/-- An insert of a block no slot holds: the slot at `head` takes it, and its
old tag, if a block, is the victim. -/
theorem Valid.insert_fresh (hv : c.Valid) (hb : b ∉ c.tags) (hbm : b ≠ u32Max)
    {data : List UInt8} (hdata : data.length = c.blockSize) :
    ∃ c', c.insert b data = some c' ∧ c'.Valid ∧ c'.blockSize = c.blockSize ∧
      c'.contents = place c.contents b data c.tags[c.head]? := by
  have hslot : c.head * c.blockSize + c.blockSize ≤ c.backing.length := by
    rw [hv.backing_length]
    exact slot_end_le hv.head_lt
  have hhead : c.head < c.tags.length := by rw [hv.tags_length]; exact hv.head_lt
  refine ⟨_, hv.insert_of_not_mem hb hdata, ?_, rfl, ?_⟩
  · exact ⟨by simp [hv.tags_length], Nat.mod_lt _ (by decide),
      by rw [length_writeBytes (by omega), hv.backing_length], hv.tags_distinct.set (.inr hb)⟩
  · have hv' : Valid { c with
        tags := c.tags.set c.head b
        backing := writeBytes c.backing (c.head * c.blockSize) data
        head := (c.head + 1) % blockCacheEntries } :=
      ⟨by simp [hv.tags_length], Nat.mod_lt _ (by decide),
        by rw [length_writeBytes (by omega), hv.backing_length], hv.tags_distinct.set (.inr hb)⟩
    funext x
    by_cases hxb : x = b
    · -- the new block, in the slot at `head`
      subst hxb
      have htag : (c.tags.set c.head x)[c.head]? = some x := by simp [hhead]
      rw [hv'.contents_of_tag htag hbm]
      simp [place, slotData_writeBytes_self hslot hdata]
    by_cases hxm : x = u32Max
    · subst hxm
      simp [contents, place, hxb]
    by_cases hvic : some x = c.tags[c.head]?
    · -- the victim: it held only the slot at `head`, which now holds `b`
      simp only [place, if_neg hxb, if_pos hvic]
      refine contents_of_not_mem fun hmem => ?_
      obtain ⟨j, hj⟩ := List.mem_iff_getElem?.mp hmem
      simp only [List.getElem?_set] at hj
      split_ifs at hj with hjh
      · cases hj
        exact hxb rfl
      · exact hjh (hv.tags_distinct _ _ x hvic.symm hj hxm)
    · -- any other block keeps its slot and its bytes
      simp only [place, if_neg hxb, if_neg hvic]
      refine hv.contents_congr hv' hxm (fun j => ?_) (fun j hj => ?_)
      · simp only [List.getElem?_set]
        split_ifs with hjh
        · subst hjh
          simp only [Option.some.injEq]
          exact ⟨fun h => absurd h.symm hxb, fun h => absurd h.symm hvic⟩
        · rfl
      · refine slotData_writeBytes_ne hslot hdata fun hjh => hvic ?_
        rw [← hjh, hj]

theorem Valid.remove (hv : c.Valid) (hb : b ≠ u32Max) :
    (c.remove b).Valid ∧ (c.remove b).blockSize = c.blockSize ∧
      (c.remove b).contents = Function.update c.contents b none := by
  unfold BlockRingCache.remove
  cases hidx : c.tags.idxOf? b with
  | none =>
    -- no slot holds `b`: nothing changes
    refine ⟨hv, rfl, ?_⟩
    dsimp only
    rw [eq_comm, Function.update_eq_self_iff]
    exact (contents_of_not_mem (List.idxOf?_eq_none_iff.mp hidx)).symm
  | some i =>
    obtain ⟨hi, hib, -⟩ := List.idxOf?_eq_some_iff.mp hidx
    have hib' : c.tags[i]? = some b := List.getElem?_eq_some_iff.mpr ⟨hi, hib⟩
    have hv' : Valid { c with tags := c.tags.set i u32Max } :=
      ⟨by simp [hv.tags_length], hv.head_lt, hv.backing_length, hv.tags_distinct.set (.inl rfl)⟩
    refine ⟨hv', rfl, ?_⟩
    funext x
    by_cases hxb : x = b
    · -- `b` held only slot `i`, which is now empty
      subst hxb
      rw [Function.update_self]
      refine contents_of_not_mem fun hmem => ?_
      obtain ⟨j, hj⟩ := List.mem_iff_getElem?.mp hmem
      simp only [List.getElem?_set] at hj
      split_ifs at hj with hji
      · cases hj
        exact hb rfl
      · exact hji (hv.tags_distinct _ _ x hib' hj hb)
    rw [Function.update_of_ne hxb]
    by_cases hxm : x = u32Max
    · subst hxm
      simp [contents]
    -- any other block keeps its slot
    refine hv.contents_congr hv' hxm (fun j => ?_) (fun _ _ => rfl)
    simp only [List.getElem?_set]
    split_ifs with hji
    · subst hji
      simp only [hib', Option.some.injEq]
      exact ⟨fun h => absurd h.symm hxm, fun h => absurd h.symm hxb⟩
    · rfl

/-- The ring cache's operations; a lookup leaves the cache as it is. -/
def impl : Impl BlockRingCache Nat (List UInt8) :=
  ⟨fun c b => (c.get b, c), insert, remove⟩

/-- The ring cache refines the contents semantics for the block layer's
operations, from valid caches of `blockSize`-byte slots. -/
theorem refines (blockSize : Nat) :
    impl.Refines contents (fun c => c.Valid ∧ c.blockSize = blockSize) (BlockOpOk blockSize) where
  get_fst c b _ hb := by
    simp [impl, contents, show b ≠ u32Max from hb]
  step c op hc hop := by
    obtain ⟨hv, hbs⟩ := hc
    cases op with
    | get b => exact ⟨c, rfl, ⟨hv, hbs⟩, rfl⟩
    | insert b data =>
      obtain ⟨hb, hdata⟩ := hop
      by_cases hmem : b ∈ c.tags
      · -- a block already cached is not inserted again
        refine ⟨c, by simp [Impl.exec, impl, insert, hmem], ⟨hv, hbs⟩, .inl ?_⟩
        exact ⟨contents_ne_none_of_mem hv hmem hb, rfl⟩
      · obtain ⟨c', hc', hv', hbs', hcont⟩ := hv.insert_fresh hmem hb (hdata.trans hbs.symm)
        exact ⟨c', hc', ⟨hv', hbs'.trans hbs⟩, .inr ⟨contents_of_not_mem hmem, _, hcont⟩⟩
    | remove b =>
      obtain ⟨hv', hbs', hcont⟩ := hv.remove hop
      exact ⟨c.remove b, rfl, ⟨hv', hbs'.trans hbs⟩, hcont⟩

end BlockRingCache

/-! ## ClockBlockCache -/

/-- `Vec::resize(n, value)`. -/
def resize {α : Type} (xs : List α) (n : Nat) (value : α) : List α :=
  xs.take n ++ List.replicate (n - xs.length) value

/-- `ClockBlockCache`. The reference bits are `Cell`s in the source, so
that `get` can set one through `&self`. -/
structure ClockBlockCache where
  backing : List UInt8
  tags : List Nat
  refBits : List Bool
  index : OrdMap Nat Nat
  hand : Nat
  blockSize : Nat
  capacityBlocks : Nat

namespace ClockBlockCache

/-- `with_capacity_blocks`: no slot yet. -/
def withCapacityBlocks (blockSize capacityBlocks : Nat) : ClockBlockCache :=
  ⟨[], [], [], OrdMap.empty, 0, blockSize, capacityBlocks⟩

/-- `ClockBlockCache::new`, `capBytes` being the value of `CACHE_CAP_BYTES`:
at least 64 slots. -/
def new (capBytes blockSize : Nat) : ClockBlockCache :=
  withCapacityBlocks blockSize (max 64 (capBytes / max blockSize 1))

/-- `get`: the bytes of the block's slot, whose reference bit is set. -/
def get (c : ClockBlockCache) (blockNum : Nat) : Option (List UInt8) × ClockBlockCache :=
  match c.index.get? blockNum with
  | some slot =>
    (some (slotData c.backing c.blockSize slot), { c with refBits := c.refBits.set slot true })
  | none => (none, c)

/-- The clock loop of `alloc_slot` over `slots` slots, one turn of the hand
per unit of `fuel`: a referenced slot loses its bit, and the first slot
without one is the victim. Returns the bits, the hand and the victim. -/
def sweep (slots : Nat) : Nat → List Bool → Nat → Option (List Bool × Nat × Nat)
  | 0, _, _ => none
  | fuel + 1, refBits, hand =>
    let hand := if hand ≥ slots then 0 else hand
    if refBits.getD hand false then sweep slots fuel (refBits.set hand false) ((hand + 1) % slots)
    else some (refBits, (hand + 1) % slots, hand)

/-- `alloc_slot`: a new zeroed slot while under capacity, else the clock's
victim. The source's `loop` is given two passes of the hand; `sweep_returns`
shows that it needs at most one pass and one turn. -/
def allocSlot (c : ClockBlockCache) : Option (ClockBlockCache × Nat) :=
  let slots := c.tags.length
  if slots < c.capacityBlocks then
    some ({ c with
      backing := resize c.backing ((slots + 1) * c.blockSize) 0
      tags := c.tags ++ [u32Max]
      refBits := c.refBits ++ [false] }, slots)
  else
    (sweep slots (2 * slots) c.refBits c.hand).map fun (refBits, hand, victim) =>
      ({ c with refBits := refBits, hand := hand }, victim)

/-- `insert`: nothing if the block is indexed already; otherwise it takes the
slot `alloc_slot` gives, whose previous block, if any, leaves the index. The
slice of the slot and `copy_from_slice` abort unless the slot lies in the
buffer and the data has `block_size` bytes. -/
def insert (c : ClockBlockCache) (blockNum : Nat) (data : List UInt8) : Option ClockBlockCache :=
  if c.index.get? blockNum ≠ none then some c
  else do
    let (c, slot) ← c.allocSlot
    let prev ← c.tags[slot]?
    let index := if prev ≠ u32Max then c.index.erase prev else c.index
    let s := slot * c.blockSize
    if s + c.blockSize ≤ c.backing.length ∧ data.length = c.blockSize then
      some { c with
        backing := writeBytes c.backing s data
        tags := c.tags.set slot blockNum
        refBits := c.refBits.set slot true
        index := index.insert blockNum slot }
    else none

/-- `remove`: the block leaves the index, and its slot becomes an empty
hole without its reference bit. -/
def remove (c : ClockBlockCache) (blockNum : Nat) : ClockBlockCache :=
  match c.index.get? blockNum with
  | some slot => { c with
      index := c.index.erase blockNum
      tags := c.tags.set slot u32Max
      refBits := c.refBits.set slot false }
  | none => c

/-- The clock cache's operations. -/
def impl : Impl ClockBlockCache Nat (List UInt8) :=
  ⟨get, insert, remove⟩

/-- What the cache answers for: the bytes of each indexed block's slot. -/
def contents (c : ClockBlockCache) (blockNum : Nat) : Option (List UInt8) :=
  (c.index.get? blockNum).map (slotData c.backing c.blockSize)

/-- The representation invariant: a reference bit per slot, no more slots
than the capacity, `block_size` bytes per slot, and the index maps a block
to a slot exactly when the slot's tag is that block and not `u32::MAX`. -/
structure Valid (c : ClockBlockCache) : Prop where
  refBits_length : c.refBits.length = c.tags.length
  tags_length_le : c.tags.length ≤ c.capacityBlocks
  backing_length : c.backing.length = c.tags.length * c.blockSize
  index_iff : ∀ b slot, c.index.get? b = some slot ↔ c.tags[slot]? = some b ∧ b ≠ u32Max

theorem valid_withCapacityBlocks (blockSize capacityBlocks : Nat) :
    (withCapacityBlocks blockSize capacityBlocks).Valid where
  refBits_length := rfl
  tags_length_le := Nat.zero_le _
  backing_length := by simp [withCapacityBlocks]
  index_iff b slot := by simp [withCapacityBlocks]

/-- An empty cache answers for no block. -/
theorem contents_withCapacityBlocks (blockSize capacityBlocks : Nat) :
    (withCapacityBlocks blockSize capacityBlocks).contents = fun _ => none := by
  funext b
  simp [contents, withCapacityBlocks]

variable {c : ClockBlockCache} {b : Nat}

/-- No block is in two slots. -/
theorem Valid.tags_distinct (hv : c.Valid) : TagsDistinct c.tags := by
  intro i j x hi hj hx
  have h₁ := (hv.index_iff x i).mpr ⟨hi, hx⟩
  have h₂ := (hv.index_iff x j).mpr ⟨hj, hx⟩
  rw [h₁] at h₂
  exact Option.some.inj h₂

theorem Valid.index_ne_max (hv : c.Valid) : c.index.get? u32Max = none := by
  cases h : c.index.get? u32Max with
  | none => rfl
  | some slot => exact absurd rfl ((hv.index_iff _ slot).mp h).2

theorem Valid.get (hv : c.Valid) (b : Nat) :
    (c.get b).1 = c.contents b ∧ (c.get b).2.Valid ∧ (c.get b).2.contents = c.contents ∧
      (c.get b).2.blockSize = c.blockSize ∧ (c.get b).2.capacityBlocks = c.capacityBlocks := by
  unfold ClockBlockCache.get
  cases h : c.index.get? b with
  | none => exact ⟨by simp [contents, h], hv, rfl, rfl, rfl⟩
  | some slot =>
    refine ⟨by simp [contents, h], ⟨?_, hv.tags_length_le, hv.backing_length, hv.index_iff⟩,
      rfl, rfl, rfl⟩
    simp [hv.refBits_length]

/-! ### The clock sweep -/

theorem sweep_spec {slots : Nat} (hslots : 0 < slots) :
    ∀ {fuel : Nat} {refBits : List Bool} {hand : Nat} {r : List Bool × Nat × Nat},
      sweep slots fuel refBits hand = some r → r.1.length = refBits.length ∧ r.2.2 < slots
  | 0, _, _, _, h => by simp [sweep] at h
  | fuel + 1, refBits, hand, r, h => by
    simp only [sweep] at h
    -- the hand is brought back to slot 0 if it is past the last slot
    split_ifs at h with hhand hbit hbit
    · simpa using sweep_spec hslots h
    · cases h
      exact ⟨rfl, hslots⟩
    · simpa using sweep_spec hslots h
    · cases h
      exact ⟨rfl, by dsimp only; omega⟩

/-- Each turn that does not end the sweep clears a set bit, so the sweep
ends within one turn more than there are set bits. -/
theorem sweep_returns_of_count {slots : Nat} (hslots : 0 < slots) :
    ∀ {fuel : Nat} {refBits : List Bool} (hand : Nat), refBits.length = slots →
      refBits.count true < fuel → ∃ r, sweep slots fuel refBits hand = some r
  | 0, _, _, _, h => absurd h (Nat.not_lt_zero _)
  | fuel + 1, refBits, hand, hlen, hcount => by
    have hlt : (if hand ≥ slots then 0 else hand) < refBits.length := by
      rw [hlen]
      split_ifs <;> omega
    simp only [sweep]
    by_cases hbit : refBits.getD (if hand ≥ slots then 0 else hand) false = true
    · -- a referenced slot loses its bit: one set bit fewer
      rw [if_pos hbit]
      have htrue : refBits[(if hand ≥ slots then 0 else hand)] = true := by
        simpa [List.getD_eq_getElem?_getD, List.getElem?_eq_getElem hlt] using hbit
      have hpos : 0 < refBits.count true := List.count_pos_iff.mpr (htrue ▸ List.getElem_mem hlt)
      refine sweep_returns_of_count hslots _ (by simp [hlen]) ?_
      rw [List.count_set hlt]
      simp [htrue]
      omega
    · rw [if_neg hbit]
      exact ⟨_, rfl⟩

/-- The sweep ends within one pass of the hand and one turn. -/
theorem sweep_returns {slots : Nat} (hslots : 0 < slots) {refBits : List Bool}
    (hlen : refBits.length = slots) (hand : Nat) : ∃ r, sweep slots (slots + 1) refBits hand = some r :=
  sweep_returns_of_count hslots hand hlen (by rw [← hlen]; exact Nat.lt_succ_of_le List.count_le_length)

/-- More fuel does not change a sweep that ended. -/
theorem sweep_add_fuel {slots : Nat} :
    ∀ {fuel : Nat} {refBits : List Bool} {hand : Nat} {r : List Bool × Nat × Nat} (k : Nat),
      sweep slots fuel refBits hand = some r → sweep slots (fuel + k) refBits hand = some r
  | 0, _, _, _, _, h => by simp [sweep] at h
  | fuel + 1, refBits, hand, r, k, h => by
    rw [Nat.add_right_comm]
    simp only [sweep] at h ⊢
    split_ifs at h ⊢ <;> first | exact sweep_add_fuel k h | exact h

/-! ### Slots, inserts and removes -/

theorem length_resize {α : Type} (xs : List α) (n : Nat) (value : α) :
    (resize xs n value).length = n := by
  simp only [resize, List.length_append, List.length_take, List.length_replicate]
  omega

theorem slotData_resize {backing : List UInt8} {blockSize slot n : Nat}
    (hslot : slot * blockSize + blockSize ≤ backing.length) (hn : backing.length ≤ n) :
    slotData (resize backing n 0) blockSize slot = slotData backing blockSize slot := by
  apply List.ext_getElem?
  intro m
  simp only [slotData, resize, List.getElem?_take, List.getElem?_drop, List.getElem?_append,
    List.length_take, show min n backing.length = backing.length by omega]
  split_ifs <;> first | rfl | omega

theorem Valid.slot_end_le (hv : c.Valid) {slot : Nat} (h : slot < c.tags.length) :
    slot * c.blockSize + c.blockSize ≤ c.backing.length := by
  rw [hv.backing_length]
  exact Akuma.Ext2.slot_end_le h

/-- `alloc_slot` on a valid cache with room for a slot: a slot of the
cache, with the index and what the cache answers for unchanged. -/
theorem Valid.allocSlot (hv : c.Valid) (hcap : 1 ≤ c.capacityBlocks) :
    ∃ c' slot, c.allocSlot = some (c', slot) ∧ c'.Valid ∧ c'.contents = c.contents ∧
      c'.index = c.index ∧ c'.blockSize = c.blockSize ∧ c'.capacityBlocks = c.capacityBlocks ∧
      slot < c'.tags.length := by
  unfold ClockBlockCache.allocSlot
  by_cases hgrow : c.tags.length < c.capacityBlocks
  · -- a new zeroed slot at the end, tagged empty
    rw [if_pos hgrow]
    refine ⟨_, _, rfl, ⟨by simp [hv.refBits_length], by simp; omega, ?_, ?_⟩, ?_, rfl, rfl, rfl,
      by simp⟩
    · simp [length_resize, Nat.succ_mul]
    · intro x slot
      rw [hv.index_iff, List.getElem?_append]
      constructor
      · rintro ⟨hx, hxm⟩
        have : slot < c.tags.length := (List.getElem?_eq_some_iff.mp hx).1
        rw [if_pos this]
        exact ⟨hx, hxm⟩
      · rintro ⟨hx, hxm⟩
        split_ifs at hx with hs
        · exact ⟨hx, hxm⟩
        · simp only [List.getElem?_singleton] at hx
          split_ifs at hx
          cases hx
          exact absurd rfl hxm
    · funext x
      simp only [contents]
      cases hx : c.index.get? x with
      | none => rfl
      | some slot =>
        have hs := (List.getElem?_eq_some_iff.mp ((hv.index_iff x slot).mp hx).1).1
        simp only [Option.map_some, Option.some.injEq]
        exact slotData_resize (hv.slot_end_le hs)
          (by rw [hv.backing_length, Nat.succ_mul]; omega)
  · -- the clock's victim
    rw [if_neg hgrow]
    have hslots : 0 < c.tags.length := by omega
    obtain ⟨r, hr⟩ := sweep_returns hslots hv.refBits_length c.hand
    have hr' : sweep c.tags.length (2 * c.tags.length) c.refBits c.hand = some r := by
      have := sweep_add_fuel (c.tags.length - 1) hr
      rwa [show c.tags.length + 1 + (c.tags.length - 1) = 2 * c.tags.length by omega] at this
    obtain ⟨hlen, hvictim⟩ := sweep_spec hslots hr'
    rw [hr']
    exact ⟨_, _, rfl, ⟨by rw [hlen, hv.refBits_length], hv.tags_length_le, hv.backing_length,
      hv.index_iff⟩, rfl, rfl, rfl, rfl, hvictim⟩

/-- An insert of a block the index does not hold, on a valid cache with
room for a slot: the block takes the slot `alloc_slot` gives, and that
slot's previous block, if any, is the victim. -/
theorem Valid.insert_fresh (hv : c.Valid) (hcap : 1 ≤ c.capacityBlocks)
    (hidx : c.index.get? b = none) (hb : b ≠ u32Max) {data : List UInt8}
    (hdata : data.length = c.blockSize) :
    ∃ c'', c.insert b data = some c'' ∧ c''.Valid ∧ c''.blockSize = c.blockSize ∧
      c''.capacityBlocks = c.capacityBlocks ∧ ∃ victim, c''.contents = place c.contents b data victim := by
  obtain ⟨c', slot, halloc, hv', hcont, hindex, hbs, hcap', hslot⟩ := hv.allocSlot hcap
  obtain ⟨prev, hprev⟩ : ∃ prev, c'.tags[slot]? = some prev :=
    ⟨_, List.getElem?_eq_getElem hslot⟩
  have hend := hv'.slot_end_le hslot
  have hidx' : c'.index.get? b = none := hindex ▸ hidx
  have hdata' : data.length = c'.blockSize := hbs ▸ hdata
  -- the index loses the victim, if any, and gains the new block
  set index := (if prev ≠ u32Max then c'.index.erase prev else c'.index).insert b slot with hdef
  have hindex_b : index.get? b = some slot := by simp [hdef]
  have hindex_victim (hpm : prev ≠ u32Max) : index.get? prev = none := by
    rcases eq_or_ne prev b with rfl | hpb
    · -- the new block was not indexed, so it was in no slot
      have := (hv'.index_iff prev slot).mpr ⟨hprev, hpm⟩
      rw [hidx'] at this
      cases this
    · simp [hdef, hpm, hpb]
  have hindex_other {x : Nat} (hxb : x ≠ b) (hxv : ¬(prev ≠ u32Max ∧ x = prev)) :
      index.get? x = c'.index.get? x := by
    by_cases hpm : prev ≠ u32Max
    · simp [hdef, hpm, hxb, show x ≠ prev from fun h => hxv ⟨hpm, h⟩]
    · simp [hdef, hpm, hxb]
  -- an indexed block other than the victim is not in the victim's slot
  have hslot_other {x s : Nat} (hxv : ¬(prev ≠ u32Max ∧ x = prev)) (hs : c'.index.get? x = some s) :
      s ≠ slot := by
    rintro rfl
    obtain ⟨hxs, hxm⟩ := (hv'.index_iff x s).mp hs
    rw [hprev] at hxs
    cases hxs
    exact hxv ⟨hxm, rfl⟩
  refine ⟨{ c' with
      backing := writeBytes c'.backing (slot * c'.blockSize) data
      tags := c'.tags.set slot b
      refBits := c'.refBits.set slot true
      index := index }, ?_, ⟨?_, ?_, ?_, ?_⟩, hbs, hcap', if prev ≠ u32Max then some prev else none, ?_⟩
  · simp [ClockBlockCache.insert, hidx, halloc, hprev, hend, hdata', hdef]
  · simp [hv'.refBits_length]
  · simpa [hcap'] using hv'.tags_length_le
  · rw [length_writeBytes (by omega), hv'.backing_length, List.length_set]
  · intro x s
    simp only [List.getElem?_set, hslot, if_true]
    by_cases hxb : x = b
    · -- the new block is in its new slot only
      subst hxb
      rw [hindex_b]
      constructor
      · rintro ⟨⟩
        exact ⟨by simp, hb⟩
      · rintro ⟨hs, -⟩
        split_ifs at hs with hss
        · rw [hss]
        · rw [(hv'.index_iff x s).mpr ⟨hs, hb⟩] at hidx'
          cases hidx'
    by_cases hxv : prev ≠ u32Max ∧ x = prev
    · -- the victim is indexed nowhere
      obtain ⟨hpm, rfl⟩ := hxv
      rw [hindex_victim hpm]
      simp only [reduceCtorEq, false_iff, not_and]
      intro hs _
      split_ifs at hs with hss
      · cases hs
        exact hxb rfl
      · exact hss (hv'.tags_distinct _ _ x hprev hs hpm)
    · -- any other block keeps its slot, which is not the victim's
      rw [hindex_other hxb hxv, hv'.index_iff]
      constructor
      · rintro ⟨hs, hxm⟩
        have hss := hslot_other hxv ((hv'.index_iff x s).mpr ⟨hs, hxm⟩)
        rw [if_neg (Ne.symm hss)]
        exact ⟨hs, hxm⟩
      · rintro ⟨hs, hxm⟩
        split_ifs at hs with hss
        · cases hs
          exact absurd rfl hxb
        · exact ⟨hs, hxm⟩
  · funext x
    simp only [contents]
    by_cases hxb : x = b
    · subst hxb
      simp [hindex_b, place, slotData_writeBytes_self hend hdata']
    by_cases hxv : prev ≠ u32Max ∧ x = prev
    · obtain ⟨hpm, rfl⟩ := hxv
      simp [hindex_victim hpm, place, hxb, hpm]
    · rw [hindex_other hxb hxv, ← hcont]
      have hvic : ¬(some x = if prev ≠ u32Max then some prev else none) := by
        split_ifs with hpm
        · exact fun h => hxv ⟨hpm, (Option.some.inj h)⟩
        · simp
      simp only [place, if_neg hxb, if_neg hvic, contents]
      cases hs : c'.index.get? x with
      | none => rfl
      | some s =>
        simp only [Option.map_some, Option.some.injEq]
        exact slotData_writeBytes_ne hend hdata' (hslot_other hxv hs)

theorem Valid.remove (hv : c.Valid) :
    (c.remove b).Valid ∧ (c.remove b).blockSize = c.blockSize ∧
      (c.remove b).capacityBlocks = c.capacityBlocks ∧
      (c.remove b).contents = Function.update c.contents b none := by
  unfold ClockBlockCache.remove
  cases hidx : c.index.get? b with
  | none =>
    -- the block is not indexed: nothing changes
    refine ⟨hv, rfl, rfl, ?_⟩
    dsimp only
    rw [eq_comm, Function.update_eq_self_iff]
    simp [contents, hidx]
  | some slot =>
    obtain ⟨hslot, hb⟩ := (hv.index_iff b slot).mp hidx
    have hlt : slot < c.tags.length := (List.getElem?_eq_some_iff.mp hslot).1
    refine ⟨⟨by simp [hv.refBits_length], by simpa using hv.tags_length_le,
      by simpa using hv.backing_length, ?_⟩, rfl, rfl, ?_⟩
    · intro x s
      simp only [OrdMap.get?_erase, List.getElem?_set, hlt, if_true]
      by_cases hxb : x = b
      · -- the block leaves the index, and its slot is empty
        subst hxb
        simp only [if_true, reduceCtorEq, false_iff, not_and]
        intro hs hxm
        split_ifs at hs with hss
        · cases hs
          exact hxm rfl
        · exact hss (hv.tags_distinct _ _ x hslot hs hxm)
      · rw [if_neg hxb, hv.index_iff]
        constructor
        · rintro ⟨hs, hxm⟩
          have hss : slot ≠ s := by
            rintro rfl
            rw [hslot] at hs
            exact hxb (Option.some.inj hs).symm
          rw [if_neg hss]
          exact ⟨hs, hxm⟩
        · rintro ⟨hs, hxm⟩
          split_ifs at hs with hss
          · cases hs
            exact absurd rfl hxm
          · exact ⟨hs, hxm⟩
    · funext x
      by_cases hxb : x = b
      · subst hxb
        simp [contents]
      · simp [contents, hxb]

/-- The clock cache refines the contents semantics for the block layer's
operations, from valid caches of `blockSize`-byte slots with room for a
slot. -/
theorem refines (blockSize capacityBlocks : Nat) (hcap : 1 ≤ capacityBlocks) :
    impl.Refines contents
      (fun c => c.Valid ∧ c.blockSize = blockSize ∧ c.capacityBlocks = capacityBlocks)
      (BlockOpOk blockSize) where
  get_fst c b hc _ := (hc.1.get b).1
  step c op hc hop := by
    obtain ⟨hv, hbs, hcap'⟩ := hc
    cases op with
    | get b =>
      obtain ⟨-, hv', hcont, hbs', hcap''⟩ := hv.get b
      exact ⟨_, rfl, ⟨hv', hbs'.trans hbs, hcap''.trans hcap'⟩, hcont⟩
    | insert b data =>
      obtain ⟨hb, hdata⟩ := hop
      cases hidx : c.index.get? b with
      | some slot =>
        -- a block already cached is not inserted again
        refine ⟨c, by simp [Impl.exec, impl, insert, hidx], ⟨hv, hbs, hcap'⟩, .inl ⟨?_, rfl⟩⟩
        simp [contents, hidx]
      | none =>
        obtain ⟨c', hc', hv', hbs', hcap'', victim, hcont⟩ :=
          hv.insert_fresh (hcap'.symm ▸ hcap) hidx hb (hdata.trans hbs.symm)
        exact ⟨c', hc', ⟨hv', hbs'.trans hbs, hcap''.trans hcap'⟩,
          .inr ⟨by simp [contents, hidx], victim, hcont⟩⟩
    | remove b =>
      obtain ⟨hv', hbs', hcap'', hcont⟩ := hv.remove (b := b)
      exact ⟨_, rfl, ⟨hv', hbs'.trans hbs, hcap''.trans hcap'⟩, hcont⟩

end ClockBlockCache

/-- Over every run of lookups, inserts and removes on blocks below
`u32::MAX`, each insert carrying `block_size` bytes, from an empty clock
cache with room for a slot: the representation invariant holds, `alloc_slot`
returns, its sweep within one pass of the hand and one turn, and a lookup
answers with the bytes of the insert that found the block absent, provided
the block has been neither removed nor evicted since. -/
theorem clockBlockCache_run_invariant (blockSize capacityBlocks : Nat) (hcap : 1 ≤ capacityBlocks)
    (ops : List (Op Nat (List UInt8))) (hops : ∀ op ∈ ops, BlockOpOk blockSize op) :
    ∃ c, ClockBlockCache.impl.run (.withCapacityBlocks blockSize capacityBlocks) ops = some c ∧
      (∀ b slot, c.index.get? b = some slot ↔ c.tags[slot]? = some b ∧ b ≠ u32Max) ∧
      TagsDistinct c.tags ∧ c.refBits.length = c.tags.length ∧
      c.tags.length ≤ capacityBlocks ∧ c.backing.length = c.tags.length * blockSize ∧
      (∃ r, c.allocSlot = some r) ∧
      (0 < c.tags.length →
        ∃ r, ClockBlockCache.sweep c.tags.length (c.tags.length + 1) c.refBits c.hand = some r) ∧
      ∀ b data, (c.get b).1 = some data ↔
        ∃ pre post, ops = pre ++ .insert b data :: post ∧
          ClockBlockCache.impl.contentsAfter ClockBlockCache.contents
            (.withCapacityBlocks blockSize capacityBlocks) pre b = none ∧
          ClockBlockCache.impl.HeldAlong ClockBlockCache.contents
            (.withCapacityBlocks blockSize capacityBlocks) (pre ++ [.insert b data]) post b := by
  have hrefines := ClockBlockCache.refines blockSize capacityBlocks hcap
  have hinit := ClockBlockCache.valid_withCapacityBlocks blockSize capacityBlocks
  obtain ⟨c, hrun, hv, hbs, hcap'⟩ := hrefines.run hops ⟨hinit, rfl, rfl⟩
  refine ⟨c, hrun, hv.index_iff, hv.tags_distinct, hv.refBits_length, hcap' ▸ hv.tags_length_le,
    hbs ▸ hv.backing_length, ?_, fun hslots => ClockBlockCache.sweep_returns hslots hv.refBits_length _,
    fun b data => ?_⟩
  · obtain ⟨c', slot, halloc, -⟩ := hv.allocSlot (hcap'.symm ▸ hcap)
    exact ⟨_, halloc⟩
  · -- the empty cache holds nothing, so only a later insert can count
    have hc : ClockBlockCache.impl.contentsAfter ClockBlockCache.contents
        (.withCapacityBlocks blockSize capacityBlocks) ops b = c.contents b :=
      ClockBlockCache.impl.contentsAfter_of_run hrun b
    rw [(hv.get b).1, ← hc, hrefines.contentsAfter_eq_some_iff ⟨hinit, rfl, rfl⟩ hops]
    simp [ClockBlockCache.contents, ClockBlockCache.withCapacityBlocks]

/-- A lookup after inserts into one slot. -/
theorem clockBlockCache_run_on_one_slot :
    ∃ c, ClockBlockCache.impl.run (.withCapacityBlocks 1 1) [.insert 5 [1], .insert 6 [2]] = some c ∧
      TagsDistinct c.tags ∧ ∃ r, c.allocSlot = some r := by
  obtain ⟨c, hrun, -, hdist, -, -, -, halloc, -⟩ :=
    clockBlockCache_run_invariant 1 1 le_rfl [.insert 5 [1], .insert 6 [2]] (by decide)
  exact ⟨c, hrun, hdist, halloc⟩

/-- An insert of a block already cached is ignored, so the lookup answers
with the first insert's bytes, not the latest. And `u32::MAX`, the tag of an
empty slot, can be inserted: it stays in the index after its slot is reused,
so the cache then answers for it with another block's bytes. -/
theorem clockBlockCache_keeps_first_insert_and_aliases_max :
    ((ClockBlockCache.withCapacityBlocks 1 1).insert 5 [1] >>= fun c => c.insert 5 [2]).map
        (fun c => (c.get 5).1) = some (some [1]) ∧
      ((ClockBlockCache.withCapacityBlocks 1 1).insert u32Max [7] >>= fun c => c.insert 5 [8]).map
        (fun c => ((c.get u32Max).1, c.index.get? u32Max, c.index.get? 5)) =
        some (some [8], some 0, some 0) := by
  constructor <;> decide

end Akuma.Ext2
