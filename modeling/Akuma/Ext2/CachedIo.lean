import Akuma.Ext2.Fs
import Akuma.Ext2.Cache

/-!
# Block I/O through the cache

`read_block` and `write_block` of `akuma-ext2/src/ext2.rs` with a block
cache in front of the device (`Cached.readBlock`, `Cached.writeBlock`),
for either cache, and the fill of the cache by the batched reads of
`read_at_by_inode`.

The rest of the driver is modelled with the cache left out (`Disk`): a
read of a block returns the device's bytes. The cache gives that guarantee
only under a condition. In the default build (no `ext2_fs_cache`),
`write_superblock`, `write_bgd` and `write_inode` write their record's
bytes straight to the device at the record's offset, and evict nothing
(`DeviceOp.writeRecord`). A block the cache holds that such a write lands
in keeps its old bytes (`readBlock_stale_after_writeBgd`). The ring cache
also tags its empty slots `u32::MAX`, and so answers for that block from an
empty slot (`readBlock_max_from_empty_slot`). Over every run of the driver's
device operations on blocks below `u32::MAX` in which no record write lands
in a block that a block operation of the run names, as on an image whose
data never shares a block with the superblock, the descriptors and the inode
tables, every block either cache answers for holds the device's bytes. So
`read_block` returns what the device holds (`block_cache_coherent`).
-/

namespace Akuma.Ext2

open Akuma.Vfs Cache StateRun

/-- The offset `write_inode` computes: the entry `index` of the inode table
at block `inodeTable`, `inodeSize` bytes an entry. -/
def inodeOffset (st : Ext2State) (inodeTable index inodeSize : Nat) : Nat :=
  inodeTable * st.blockSize + index * inodeSize

/-- The driver's operations on the device, as the block cache sees them:
block reads and writes, the batched reads of `read_at_by_inode`, and the
record writes of the default build, which go to the device bytes at the
record's offset past the cache. -/
inductive DeviceOp where
  | readBlock (blockNum : Nat)
  | writeBlock (blockNum : Nat) (data : List UInt8)
  | readRun (start len : Nat)
  | writeRecord (offset : Nat) (bytes : List UInt8)

/-- `write_superblock`: the superblock's 1024 bytes at `SUPERBLOCK_OFFSET`. -/
def DeviceOp.writeSuperblock (bytes : List UInt8) : DeviceOp := .writeRecord superblockOffset bytes

/-- `write_bgd`: a descriptor's 32 bytes at `bgd_offset`. -/
def DeviceOp.writeBgd (st : Ext2State) (group : Nat) (bytes : List UInt8) : DeviceOp :=
  .writeRecord (bgdOffset st group) bytes

/-- `write_inode`: an inode's bytes at its entry of the inode table. -/
def DeviceOp.writeInode (st : Ext2State) (inodeTable index inodeSize : Nat) (bytes : List UInt8) :
    DeviceOp :=
  .writeRecord (inodeOffset st inodeTable index inodeSize) bytes

/-- The blocks an operation names. -/
def DeviceOp.blocks : DeviceOp → List Nat
  | .readBlock b | .writeBlock b _ => [b]
  | .readRun start len => List.range' start len
  | .writeRecord _ _ => []

/-- The blocks of `blockSize` bytes a record write lands in. -/
def DeviceOp.LandsIn (blockSize : Nat) : DeviceOp → Nat → Prop
  | .writeRecord offset bytes, b => ∃ j < bytes.length, (offset + j) / blockSize = b
  | _, _ => False

instance (blockSize : Nat) (op : DeviceOp) (b : Nat) : Decidable (op.LandsIn blockSize b) :=
  match op with
  | .writeRecord offset bytes => inferInstanceAs (Decidable (∃ j < bytes.length, (offset + j) / blockSize = b))
  | .readBlock _ | .writeBlock _ _ | .readRun _ _ => isFalse id

/-- A block that a write does not land in keeps its bytes. -/
theorem writeDeviceBytes_of_not_landsIn {blocks : Nat → List UInt8} {blockSize offset b : Nat}
    {bytes : List UInt8} (hlen : (blocks b).length = blockSize)
    (h : ¬ (DeviceOp.writeRecord offset bytes).LandsIn blockSize b) :
    writeDeviceBytes blocks blockSize offset bytes b = blocks b := by
  apply List.ext_getElem?
  intro j
  by_cases hj : j < blockSize
  · rw [getElem?_writeDeviceBytes hj]
    cases (blocks b)[j]? with
    | none => rfl
    | some x =>
      rw [Option.map_some, if_neg]
      -- a byte of `b` in the range would put the write in `b`
      rintro ⟨hlo, hhi⟩
      apply h
      refine ⟨b * blockSize + j - offset, by omega, ?_⟩
      rw [show offset + (b * blockSize + j - offset) = j + blockSize * b by rw [Nat.mul_comm blockSize b]; omega,
        Nat.add_mul_div_left _ _ (by omega), Nat.div_eq_of_lt hj, Nat.zero_add]
  · -- past the block's end both sides have no byte
    rw [List.getElem?_eq_none (by rw [length_writeDeviceBytes]; omega), List.getElem?_eq_none (by omega)]

namespace Cached

variable {σ : Type} (M : Impl σ Nat (List UInt8))

/-- `read_block`: a block the cache holds is answered from it; otherwise the
device's block is read and inserted. -/
def readBlock (dev : Device) (cache : σ) (blockNum : Nat) : Option (List UInt8 × σ) :=
  match M.get cache blockNum with
  | (some data, cache) => some (data, cache)
  | (none, cache) =>
    (M.insert cache blockNum (dev.blocks blockNum)).map fun cache => (dev.blocks blockNum, cache)

/-- `write_block`: a buffer of another size than a block is refused before
anything changes; otherwise the block leaves the cache and the device takes
the data. -/
def writeBlock (fs : Ext2Filesystem) (cache : σ) (blockNum : Nat) (data : List UInt8) :
    Except FsError Unit × Ext2Filesystem × σ :=
  match (Akuma.Ext2.writeBlock blockNum data).run fs with
  | .ok () fs' => (.ok (), fs', M.remove cache blockNum)
  | .error e fs' => (.error e, fs', cache)

/-- The fill of the cache by one batched read of `read_at_by_inode`: the
`len` blocks from `start` on, read from the device at once, each inserted
in turn. -/
def fillRun (dev : Device) (cache : σ) (start len : Nat) : Option σ :=
  (List.range' start len).foldlM (fun cache b => M.insert cache b (dev.blocks b)) cache

/-- One device operation of the driver; `none` if the cache aborts. -/
def deviceStep (st : Ext2Filesystem × σ) : DeviceOp → Option (Ext2Filesystem × σ)
  | .readBlock b => (readBlock M st.1.dev st.2 b).map fun r => (st.1, r.2)
  | .writeBlock b data => some (writeBlock M st.1 st.2 b data).2
  | .readRun start len => (fillRun M st.1.dev st.2 start len).map fun cache => (st.1, cache)
  | .writeRecord offset bytes =>
    some ({ st.1 with dev.blocks := writeDeviceBytes st.1.dev.blocks st.1.state.blockSize offset bytes }, st.2)

/-- The state after the device operations `ops`. -/
def deviceRun (st : Ext2Filesystem × σ) (ops : List DeviceOp) : Option (Ext2Filesystem × σ) :=
  ops.foldlM (deviceStep M) st

/-- The driver's `write_bgd` is the record write of its descriptor's bytes,
which leaves the cache as it is. -/
theorem deviceStep_writeBgd (fs : Ext2Filesystem) (cache : σ) (group : Nat) (bgd : BlockGroupDescriptor) :
    ∃ fs', (Akuma.Ext2.writeBgd group bgd).run fs = .ok () fs' ∧
      deviceStep M (fs, cache) (.writeBgd fs.state group bgd.encode) = some (fs', cache) :=
  ⟨_, run_writeBgd group bgd, rfl⟩

/-- What the block layer keeps: the cache's invariant, agreement of every
block the cache answers for with the device, and device blocks of
`blockSize` bytes. -/
structure BlocksAgree (view : σ → Nat → Option (List UInt8)) (inv : σ → Prop) (blockSize : Nat)
    (st : Ext2Filesystem × σ) : Prop where
  inv : inv st.2
  coherent : Coherent (view st.2) st.1.dev.blocks
  blockSize_eq : st.1.state.blockSize = blockSize
  block_length : ∀ b, (st.1.dev.blocks b).length = blockSize

section Refines

variable {M} {view : σ → Nat → Option (List UInt8)} {inv : σ → Prop} {blockSize : Nat}
  (h : M.Refines view inv (BlockOpOk blockSize))
include h

/-- An insert of the device's block keeps the block layer's invariant. -/
theorem insert_device {st : Ext2Filesystem × σ} (hs : BlocksAgree view inv blockSize st)
    {b : Nat} (hb : b ≠ u32Max) :
    ∃ cache, M.insert st.2 b (st.1.dev.blocks b) = some cache ∧
      BlocksAgree view inv blockSize (st.1, cache) := by
  obtain ⟨cache, hexec, hinv, hstep⟩ :=
    h.step st.2 (.insert b (st.1.dev.blocks b)) hs.inv ⟨hb, hs.block_length b⟩
  refine ⟨cache, hexec, ⟨hinv, ?_, hs.blockSize_eq, hs.block_length⟩⟩
  exact hstep.coherent hs.coherent fun k a hop => by cases hop; rfl

/-- A lookup of a block below `u32::MAX` answers with the device's bytes
when it hits, and keeps the block layer's invariant. -/
theorem get_spec {st : Ext2Filesystem × σ} (hs : BlocksAgree view inv blockSize st)
    {b : Nat} (hb : b ≠ u32Max) :
    (∀ data, (M.get st.2 b).1 = some data → data = st.1.dev.blocks b) ∧
      BlocksAgree view inv blockSize (st.1, (M.get st.2 b).2) := by
  obtain ⟨cache, hexec, hinv, hstep⟩ := h.step st.2 (.get b) hs.inv hb
  cases hexec
  have hview : view (M.get st.2 b).2 = view st.2 := hstep
  refine ⟨fun data hdata => (hs.coherent b data ?_).symm,
    ⟨hinv, by rw [hview]; exact hs.coherent, hs.blockSize_eq, hs.block_length⟩⟩
  rw [← h.get_fst st.2 b hs.inv hb, hdata]

/-- `read_block` of a block below `u32::MAX` returns the device's bytes,
from the cache or from the device, and keeps the block layer's invariant. -/
theorem readBlock_spec {st : Ext2Filesystem × σ} (hs : BlocksAgree view inv blockSize st)
    {b : Nat} (hb : b ≠ u32Max) :
    ∃ cache, readBlock M st.1.dev st.2 b = some (st.1.dev.blocks b, cache) ∧
      BlocksAgree view inv blockSize (st.1, cache) := by
  obtain ⟨hhit, hs₁⟩ := get_spec h hs hb
  unfold readBlock
  cases hg : M.get st.2 b with
  | mk answer cache =>
    rw [hg] at hhit hs₁
    cases answer with
    | some data =>
      -- a hit: the cache holds the device's bytes
      exact ⟨cache, by rw [hhit data rfl], hs₁⟩
    | none =>
      -- a miss: the device's block goes into the cache
      obtain ⟨cache', hins, hs₂⟩ := insert_device h hs₁ hb
      exact ⟨cache', by simp only [hins, Option.map_some], hs₂⟩

/-- `write_block` of a block below `u32::MAX` keeps the block layer's
invariant. -/
theorem writeBlock_spec {st : Ext2Filesystem × σ} (hs : BlocksAgree view inv blockSize st)
    {b : Nat} (hb : b ≠ u32Max) (data : List UInt8) :
    BlocksAgree view inv blockSize (writeBlock M st.1 st.2 b data).2 := by
  unfold writeBlock
  rw [run_writeBlock]
  by_cases hlen : data.length = st.1.state.blockSize
  · -- the block leaves the cache before the device takes the new bytes
    rw [if_neg (not_not.mpr hlen)]
    obtain ⟨cache, hexec, hinv, hstep⟩ := h.step st.2 (.remove b) hs.inv hb
    cases hexec
    refine ⟨hinv, ?_, hs.blockSize_eq, fun x => ?_⟩
    · rw [show view (M.remove st.2 b) = Function.update (view st.2) b none from hstep]
      exact hs.coherent.write b data
    · by_cases hx : x = b
      · subst hx
        simp [hlen, hs.blockSize_eq]
      · simp [Function.update_of_ne hx, hs.block_length]
  · rw [if_pos hlen]
    exact hs

/-- The fill of a batched read keeps the block layer's invariant. -/
theorem fillRun_spec {st : Ext2Filesystem × σ} (hs : BlocksAgree view inv blockSize st)
    {start len : Nat} (hblocks : ∀ b ∈ List.range' start len, b ≠ u32Max) :
    ∃ cache, fillRun M st.1.dev st.2 start len = some cache ∧
      BlocksAgree view inv blockSize (st.1, cache) := by
  unfold fillRun
  -- each insert of the run in turn, over any list of blocks
  suffices ∀ (blocks : List Nat) (cache : σ), (∀ b ∈ blocks, b ≠ u32Max) →
      BlocksAgree view inv blockSize (st.1, cache) →
      ∃ cache', blocks.foldlM (fun cache b => M.insert cache b (st.1.dev.blocks b)) cache = some cache' ∧
        BlocksAgree view inv blockSize (st.1, cache') from this _ st.2 hblocks hs
  intro blocks
  induction blocks with
  | nil => exact fun cache _ hs => ⟨cache, rfl, hs⟩
  | cons b blocks ih =>
    intro cache hblocks hs
    obtain ⟨cache₁, hins, hs₁⟩ := insert_device h hs (hblocks b List.mem_cons_self)
    obtain ⟨cache₂, hrest, hs₂⟩ := ih cache₁ (fun x hx => hblocks x (List.mem_cons_of_mem _ hx)) hs₁
    exact ⟨cache₂, by rw [List.foldlM_cons, hins]; exact hrest, hs₂⟩

/-- What the cache holds after one of its operations was held before, or
is the block the operation inserts. -/
theorem exec_held {s : σ} (hinv : inv s) (op : Op Nat (List UInt8)) (hop : BlockOpOk blockSize op) {s' : σ}
    (hexec : M.exec s op = some s') {k : Nat} (hk : view s' k ≠ none) :
    view s k ≠ none ∨ ∃ data, op = .insert k data := by
  obtain ⟨s'', hexec', -, hstep⟩ := h.step s op hinv hop
  rw [hexec] at hexec'
  cases hexec'
  exact hstep.held_or_fill hk

/-- A block the cache holds after `read_block` was held before, or is the
block read. -/
theorem readBlock_held {st : Ext2Filesystem × σ} (hs : BlocksAgree view inv blockSize st) {b : Nat}
    (hb : b ≠ u32Max) {data : List UInt8} {cache : σ} (hread : readBlock M st.1.dev st.2 b = some (data, cache))
    {k : Nat} (hk : view cache k ≠ none) : view st.2 k ≠ none ∨ k = b := by
  have hs₁ := (get_spec h hs hb).2
  -- the lookup holds what was held
  have hget {k : Nat} (hk : view (M.get st.2 b).2 k ≠ none) : view st.2 k ≠ none := by
    rcases exec_held h hs.inv (.get b) hb rfl hk with hk | ⟨_, hop⟩
    · exact hk
    · cases hop
  unfold readBlock at hread
  cases hg : M.get st.2 b with
  | mk answer cache₁ =>
    rw [hg] at hread hs₁
    have hget' {k : Nat} (hk : view cache₁ k ≠ none) : view st.2 k ≠ none := hget (by rw [hg]; exact hk)
    cases answer with
    | some d =>
      cases hread
      exact .inl (hget' hk)
    | none =>
      obtain ⟨cache₂, hins, hread⟩ := Option.map_eq_some_iff.mp hread
      cases hread
      rcases exec_held h hs₁.inv (.insert b _) ⟨hb, hs₁.block_length b⟩ hins hk with hk | ⟨_, hop⟩
      · exact .inl (hget' hk)
      · cases hop
        exact .inr rfl

/-- A block the cache holds after the fill of a run was held before, or is
one of the run's blocks. -/
theorem fillRun_held {st : Ext2Filesystem × σ} (hs : BlocksAgree view inv blockSize st) {start len : Nat}
    (hblocks : ∀ b ∈ List.range' start len, b ≠ u32Max) {cache : σ}
    (hfill : fillRun M st.1.dev st.2 start len = some cache) {k : Nat} (hk : view cache k ≠ none) :
    view st.2 k ≠ none ∨ k ∈ List.range' start len := by
  unfold fillRun at hfill
  -- each insert of the run in turn, over any list of blocks
  suffices ∀ (blocks : List Nat) (cache₀ cache : σ), (∀ b ∈ blocks, b ≠ u32Max) →
      BlocksAgree view inv blockSize (st.1, cache₀) →
      blocks.foldlM (fun cache b => M.insert cache b (st.1.dev.blocks b)) cache₀ = some cache →
      view cache k ≠ none → view cache₀ k ≠ none ∨ k ∈ blocks from this _ st.2 cache hblocks hs hfill hk
  intro blocks
  induction blocks with
  | nil =>
    intro cache₀ cache _ _ hrun hk
    cases hrun
    exact .inl hk
  | cons b blocks ih =>
    intro cache₀ cache hblocks hs₀ hrun hk
    obtain ⟨cache₁, hins, hs₁⟩ := insert_device h hs₀ (hblocks b List.mem_cons_self)
    rw [List.foldlM_cons, hins] at hrun
    rcases ih cache₁ cache (fun x hx => hblocks x (List.mem_cons_of_mem _ hx)) hs₁ hrun hk with hk | hk
    · rcases exec_held h hs₀.inv (.insert b _) ⟨hblocks b List.mem_cons_self, hs₀.block_length b⟩ hins hk with
          hk | ⟨_, hop⟩
      · exact .inl hk
      · cases hop
        exact .inr List.mem_cons_self
    · exact .inr (List.mem_cons_of_mem _ hk)

/-- One device operation on blocks below `u32::MAX`, whose record write
lands in no block the cache holds, keeps the block layer's invariant; what
the cache holds after it was held before or is named by it. -/
theorem deviceStep_spec {st : Ext2Filesystem × σ} (hs : BlocksAgree view inv blockSize st)
    {op : DeviceOp} (hop : ∀ b ∈ op.blocks, b ≠ u32Max) (hland : ∀ b, op.LandsIn blockSize b → view st.2 b = none) :
    ∃ st', deviceStep M st op = some st' ∧ BlocksAgree view inv blockSize st' ∧
      ∀ k, view st'.2 k ≠ none → view st.2 k ≠ none ∨ k ∈ op.blocks := by
  cases op with
  | readBlock b =>
    have hb := hop b (by simp [DeviceOp.blocks])
    obtain ⟨cache, hread, hs'⟩ := readBlock_spec h hs hb
    refine ⟨_, by simp only [deviceStep, hread, Option.map_some], hs', fun k hk => ?_⟩
    rcases readBlock_held h hs hb hread hk with hk | rfl
    · exact .inl hk
    · exact .inr (by simp [DeviceOp.blocks])
  | writeBlock b data =>
    refine ⟨_, rfl, writeBlock_spec h hs (hop b (by simp [DeviceOp.blocks])) data, fun k hk => .inl ?_⟩
    -- the block leaves the cache, or nothing changes
    unfold writeBlock at hk
    split at hk
    · rcases exec_held h hs.inv (.remove b) (hop b (by simp [DeviceOp.blocks])) rfl hk with hk | ⟨_, hop⟩
      · exact hk
      · cases hop
    · exact hk
  | readRun start len =>
    obtain ⟨cache, hfill, hs'⟩ := fillRun_spec h hs hop
    exact ⟨_, by simp only [deviceStep, hfill, Option.map_some], hs', fun k hk => fillRun_held h hs hop hfill hk⟩
  | writeRecord offset bytes =>
    refine ⟨_, rfl, ⟨hs.inv, fun k a hk => ?_, hs.blockSize_eq, fun b => ?_⟩, fun k hk => .inl hk⟩
    · -- a block the cache holds is not one the write lands in
      have hnot : ¬ (DeviceOp.writeRecord offset bytes).LandsIn st.1.state.blockSize k := by
        rw [hs.blockSize_eq]
        intro hl
        rw [hland k hl] at hk
        cases hk
      dsimp only
      rw [writeDeviceBytes_of_not_landsIn (by rw [hs.block_length, hs.blockSize_eq]) hnot]
      exact hs.coherent k a hk
    · dsimp only
      rw [length_writeDeviceBytes]
      exact hs.block_length b

/-- Every run of device operations on blocks below `u32::MAX`, whose record
writes land in no block the cache holds at the start nor in one a block
operation of the run names, keeps the block layer's invariant. -/
theorem deviceRun_spec :
    ∀ {ops : List DeviceOp} {st : Ext2Filesystem × σ}, (∀ op ∈ ops, ∀ b ∈ op.blocks, b ≠ u32Max) →
      (∀ op ∈ ops, ∀ b, op.LandsIn blockSize b → view st.2 b = none ∧ ∀ op' ∈ ops, b ∉ op'.blocks) →
      BlocksAgree view inv blockSize st →
      ∃ st', deviceRun M st ops = some st' ∧ BlocksAgree view inv blockSize st'
  | [], st, _, _, hs => ⟨st, rfl, hs⟩
  | op :: ops, st, hops, hland, hs => by
    obtain ⟨st₁, hstep, hs₁, hheld⟩ := deviceStep_spec h hs (hops op List.mem_cons_self)
      fun b hb => (hland op List.mem_cons_self b hb).1
    -- a block a later write lands in was not held, and this operation did not name it
    have hland₁ : ∀ o ∈ ops, ∀ b, o.LandsIn blockSize b → view st₁.2 b = none ∧ ∀ o' ∈ ops, b ∉ o'.blocks := by
      intro o ho b hb
      obtain ⟨hnone, hnamed⟩ := hland o (List.mem_cons_of_mem _ ho) b hb
      refine ⟨?_, fun o' ho' => hnamed o' (List.mem_cons_of_mem _ ho')⟩
      by_contra hk
      rcases hheld b hk with hk | hk
      · exact hk hnone
      · exact hnamed op List.mem_cons_self hk
    obtain ⟨st₂, hrun, hs₂⟩ := deviceRun_spec (fun o ho => hops o (List.mem_cons_of_mem _ ho)) hland₁ hs₁
    exact ⟨st₂, by simp only [deviceRun, List.foldlM_cons, hstep]; exact hrun, hs₂⟩

end Refines

end Cached

/-! ## Coherence of both caches -/

/-- Nothing agrees with any device better than an empty cache. -/
theorem coherent_empty (store : Nat → List UInt8) : Coherent (fun _ => none) store :=
  fun _ _ h => by cases h

/-- Over every run of the driver's device operations on blocks below
`u32::MAX`, from a device whose blocks have `block_size` bytes and a new
cache of either kind: every block the cache answers for holds the device's
current `block_size` bytes, and `read_block` of every block below
`u32::MAX` returns them. -/
theorem block_cache_coherent (fs : Ext2Filesystem)
    (hsize : ∀ b, (fs.dev.blocks b).length = fs.state.blockSize)
    (ops : List DeviceOp) (hops : ∀ op ∈ ops, ∀ b ∈ op.blocks, b ≠ u32Max)
    (hland : ∀ op ∈ ops, ∀ b, op.LandsIn fs.state.blockSize b → ∀ op' ∈ ops, b ∉ op'.blocks) :
    (∃ st, Cached.deviceRun BlockRingCache.impl (fs, .new fs.state.blockSize) ops = some st ∧
      Coherent st.2.contents st.1.dev.blocks ∧
      (∀ b, (st.1.dev.blocks b).length = fs.state.blockSize) ∧
      ∀ b, b ≠ u32Max → ∃ cache,
        Cached.readBlock BlockRingCache.impl st.1.dev st.2 b = some (st.1.dev.blocks b, cache)) ∧
    ∀ capBytes, ∃ st,
      Cached.deviceRun ClockBlockCache.impl (fs, .new capBytes fs.state.blockSize) ops = some st ∧
      Coherent st.2.contents st.1.dev.blocks ∧
      (∀ b, (st.1.dev.blocks b).length = fs.state.blockSize) ∧
      ∀ b, b ≠ u32Max → ∃ cache,
        Cached.readBlock ClockBlockCache.impl st.1.dev st.2 b = some (st.1.dev.blocks b, cache) := by
  constructor
  · have href := BlockRingCache.refines fs.state.blockSize
    have hinit : Cached.BlocksAgree BlockRingCache.contents
        (fun c => c.Valid ∧ c.blockSize = fs.state.blockSize) fs.state.blockSize
        (fs, .new fs.state.blockSize) :=
      ⟨⟨BlockRingCache.valid_new _, rfl⟩, by
        rw [BlockRingCache.contents_new]; exact coherent_empty _, rfl, hsize⟩
    obtain ⟨st, hrun, hs⟩ := Cached.deviceRun_spec href hops
      (fun op hop b hb => ⟨by rw [BlockRingCache.contents_new], hland op hop b hb⟩) hinit
    exact ⟨st, hrun, hs.coherent, hs.block_length,
      fun b hb => (Cached.readBlock_spec href hs hb).imp fun _ h => h.1⟩
  · intro capBytes
    -- `new` gives at least 64 slots
    have hcap : 1 ≤ max 64 (capBytes / max fs.state.blockSize 1) := le_max_of_le_left (by decide)
    have href := ClockBlockCache.refines fs.state.blockSize _ hcap
    have hinit : Cached.BlocksAgree ClockBlockCache.contents
        (fun c => c.Valid ∧ c.blockSize = fs.state.blockSize ∧
          c.capacityBlocks = max 64 (capBytes / max fs.state.blockSize 1)) fs.state.blockSize
        (fs, .new capBytes fs.state.blockSize) :=
      ⟨⟨ClockBlockCache.valid_withCapacityBlocks _ _, rfl, rfl⟩, by
        rw [ClockBlockCache.new, ClockBlockCache.contents_withCapacityBlocks]; exact coherent_empty _,
        rfl, hsize⟩
    obtain ⟨st, hrun, hs⟩ := Cached.deviceRun_spec href hops
      (fun op hop b hb => ⟨by rw [ClockBlockCache.new, ClockBlockCache.contents_withCapacityBlocks],
        hland op hop b hb⟩) hinit
    exact ⟨st, hrun, hs.coherent, hs.block_length,
      fun b hb => (Cached.readBlock_spec href hs hb).imp fun _ h => h.1⟩

/-- A device of one-byte blocks: block `u32::MAX` holds 1, every other block
0. -/
def oneByteDevice : Device where
  blocks b := if b = u32Max then [1] else [0]
  superblock := ⟨0, 0, 0, 0, 0, 0, 0, ext2Magic, 0, 0⟩
  inodes _ := Inode.default

/-- The driver's state over `oneByteDevice`, with one-byte blocks. -/
def oneByteFs : Ext2Filesystem :=
  ⟨oneByteDevice, ⟨oneByteDevice.superblock, 1, 0, 128, 0, 0, 0⟩⟩

/-- A block read back through the ring cache after a write, with the
superblock written in between to a block the run does not read. -/
theorem block_cache_coherent_on_rewrite :
    ∃ st, Cached.deviceRun BlockRingCache.impl (oneByteFs, .new 1)
        [.readBlock 3, .writeBlock 3 [5], DeviceOp.writeSuperblock [7]] = some st ∧
      ∃ cache, Cached.readBlock BlockRingCache.impl st.1.dev st.2 3 = some ([5], cache) := by
  have hsize : ∀ b, (oneByteFs.dev.blocks b).length = oneByteFs.state.blockSize := by
    intro b
    by_cases hb : b = u32Max <;> simp [oneByteFs, oneByteDevice, hb]
  -- the superblock write lands in block 1024 alone
  have hland : ∀ op ∈ [DeviceOp.readBlock 3, .writeBlock 3 [5], DeviceOp.writeSuperblock [7]], ∀ b,
      op.LandsIn oneByteFs.state.blockSize b →
        ∀ op' ∈ [DeviceOp.readBlock 3, .writeBlock 3 [5], DeviceOp.writeSuperblock [7]], b ∉ op'.blocks := by
    intro op hop b hb
    simp only [List.mem_cons, List.not_mem_nil, or_false] at hop
    rcases hop with rfl | rfl | rfl
    · exact hb.elim
    · exact hb.elim
    · obtain ⟨j, hj, rfl⟩ := hb
      obtain rfl : j = 0 := by simpa using hj
      decide
  obtain ⟨⟨st, hrun, -, -, hread⟩, -⟩ := block_cache_coherent oneByteFs hsize
    [.readBlock 3, .writeBlock 3 [5], DeviceOp.writeSuperblock [7]] (by decide) hland
  have hblock : (Cached.deviceRun BlockRingCache.impl (oneByteFs, .new 1)
      [.readBlock 3, .writeBlock 3 [5], DeviceOp.writeSuperblock [7]]).map (fun st => st.1.dev.blocks 3) =
        some [5] := by
    decide
  rw [show oneByteFs.state.blockSize = 1 from rfl] at hrun
  rw [hrun, Option.map_some, Option.some.injEq] at hblock
  obtain ⟨cache, hcache⟩ := hread 3 (by decide)
  exact ⟨st, hrun, cache, hblock ▸ hcache⟩

/-- `write_bgd` of the default build under a cached descriptor block: block
1 holds the descriptor table of a device of one-byte blocks whose first data
block is 0. After the block is read into the ring cache and group 0's
descriptor (block bitmap 3) is written, the device holds 3 there, and
`read_block` still returns the old 0 from the cache. -/
theorem readBlock_stale_after_writeBgd :
    ∃ st, Cached.deviceRun BlockRingCache.impl (oneByteFs, .new 1)
        [.readBlock 1, DeviceOp.writeBgd oneByteFs.state 0 (3 :: List.replicate 31 0)] = some st ∧
      st.1.dev.blocks 1 = [3] ∧
      ∃ cache, Cached.readBlock BlockRingCache.impl st.1.dev st.2 1 = some ([0], cache) := by
  exact ⟨_, rfl, by decide, _, rfl⟩

/-- The ring cache tags an empty slot `u32::MAX`, so a new ring cache
answers a read of block `u32::MAX` from an empty slot, with zeros, whatever
the device holds there. -/
theorem readBlock_max_from_empty_slot :
    oneByteDevice.blocks u32Max = [1] ∧
      Cached.readBlock BlockRingCache.impl oneByteDevice (.new 1) u32Max = some ([0], .new 1) := by
  constructor <;> decide

end Akuma.Ext2
