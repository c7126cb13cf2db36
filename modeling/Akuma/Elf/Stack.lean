import Akuma.Lib.Panic
import Akuma.Lib.Bytes
import Akuma.Lib.State

/-!
# The initial user stack

`UserStack` and `setup_linux_stack` of the ELF loader: the stack is built
from `stack_top` down, through the physical frames that back
`[stack_bottom, stack_top)`. The byte at `va` lives in
`frames[(va - stack_bottom) / PAGE_SIZE]` at offset `va % PAGE_SIZE`; an
index past the frames panics. Addresses are `usize`, so `UInt64` with its
wrapping arithmetic; the bytes the pushes store go to physical memory.

`setup_linux_stack` decides the padding word from the parity of the word
count before it pushes the strings, and then aligns again after them: the
second alignment drops whatever the padding did, so the final `sp` is
16-aligned exactly when `args.len() + env.len()` is odd.
-/

namespace Akuma.Elf

open Panicking StateRun

/-- `PAGE_SIZE` as a `usize`. -/
def pageSizeU : UInt64 := 4096

/-- `AuxEntry`. -/
structure AuxEntry where
  aType : UInt64
  aVal : UInt64
  deriving DecidableEq, Repr

/-- `UserStack`: the frames are the physical addresses of the pages of
`[stack_bottom, stack_top)`, lowest first. -/
structure UserStack where
  stackBottom : UInt64
  stackTop : UInt64
  sp : UInt64
  frames : List Nat
  deriving DecidableEq, Repr

/-- A stack and the physical memory its pushes write. -/
structure StackState where
  stack : UserStack
  mem : Nat → UInt8

/-- The pushes: they change the stack pointer and memory, and panic on a
frame index past the frames. -/
abbrev StackM := EStateM Panic StackState

/-- `UserStack::new`: `sp` starts at `stack_top`. -/
def UserStack.new (stackBottom stackTop : UInt64) (frames : List Nat) : UserStack :=
  ⟨stackBottom, stackTop, stackTop, frames⟩

/-- `self.sp = f(self.sp)`. -/
def modifySp (f : UInt64 → UInt64) : StackM Unit :=
  modify fun st => { st with stack := { st.stack with sp := f st.stack.sp } }

/-- `self.frames[frame_idx].addr`. -/
def frameAt (frameIdx : UInt64) : StackM Nat := do
  match index (← get).stack.frames frameIdx.toNat with
  | .ok frame => pure frame
  | .error e => throw e

/-- `copy_nonoverlapping` of `bytes` to the physical address `pa`. -/
def writePhys (pa : Nat) (bytes : List UInt8) : StackM Unit :=
  modify fun st => { st with
    mem := fun a => if pa ≤ a ∧ a < pa + bytes.length then bytes.getD (a - pa) 0 else st.mem a }

/-- The chunk loop of `push_str` and `push_raw`: from `written`, the bytes up
to the end of the page of `sp + written` go to that page's frame, then the
rest. Each round copies at least one byte, so `bytes.len()` rounds of
`fuel` are enough. -/
def copyChunks (sp : UInt64) (bytes : List UInt8) : Nat → Nat → StackM Unit
  | 0, _ => pure ()
  | fuel + 1, written =>
    if written < bytes.length then do
      let va := sp + written.toUInt64
      let frameIdx := (va - (← get).stack.stackBottom) / pageSizeU
      let offset := va % pageSizeU
      let chunkLen := min (bytes.length - written) (4096 - offset.toNat)
      let frame ← frameAt frameIdx
      writePhys (frame + offset.toNat) ((bytes.drop written).take chunkLen)
      copyChunks sp bytes fuel (written + chunkLen)
    else pure ()

/-- `push_str`: the bytes and a NUL below `sp`; the new `sp` is the string's
address. -/
def pushStr (bytes : List UInt8) : StackM UInt64 := do
  let len := bytes.length + 1
  modifySp (· - len.toUInt64)
  let sp := (← get).stack.sp
  copyChunks sp bytes bytes.length 0
  -- the terminator
  let va := sp + bytes.length.toUInt64
  let frame ← frameAt ((va - (← get).stack.stackBottom) / pageSizeU)
  writePhys (frame + (va % pageSizeU).toNat) [0]
  pure sp

/-- `push_u64`: the eight little-endian bytes of `val` below `sp`. -/
def pushU64 (val : UInt64) : StackM Unit := do
  modifySp (· - 8)
  let s := (← get).stack
  let frame ← frameAt ((s.sp - s.stackBottom) / pageSizeU)
  writePhys (frame + (s.sp % pageSizeU).toNat) (ByteCodec.leBytes val.toNat 8)

/-- `push_raw`. -/
def pushRaw (data : List UInt8) : StackM UInt64 := do
  modifySp (· - data.length.toUInt64)
  let sp := (← get).stack.sp
  copyChunks sp data data.length 0
  pure sp

/-- `align_sp`: `sp &= !(alignment - 1)`. -/
def alignSp (alignment : UInt64) : StackM Unit :=
  modifySp (· &&& ~~~(alignment - 1))

/-- The vector area of `setup_linux_stack`, pushed from the top down: the
`AT_NULL` entry and the auxiliary vector, the `envp` NULL and pointers, the
`argv` NULL and pointers, and `argc`. -/
def pushVectors (argc : Nat) (envpAddrs argvAddrs : List UInt64) (auxv : List AuxEntry) :
    StackM Unit := do
  pushU64 0
  pushU64 0
  auxv.reverse.forM fun entry => do
    pushU64 entry.aVal
    pushU64 entry.aType
  pushU64 0
  envpAddrs.reverse.forM pushU64
  pushU64 0
  argvAddrs.reverse.forM pushU64
  pushU64 argc.toUInt64

/-- `setup_linux_stack`: the strings are given as their bytes. -/
def setupLinuxStack (args env : List (List UInt8)) (auxv : List AuxEntry) : StackM UInt64 := do
  let totalWords := 1 + (args.length + 1) + (env.length + 1) + 2 * (auxv.length + 1)
  alignSp 16
  -- the padding word, decided before the strings
  (if totalWords % 2 ≠ 0 then pushU64 0 else pure ())
  let envpAddrs := (← env.reverse.mapM pushStr).reverse
  let argvAddrs := (← args.reverse.mapM pushStr).reverse
  alignSp 16
  pushVectors args.length envpAddrs argvAddrs auxv
  pure (← get).stack.sp

/-! ## The stack pointer -/

/-- `align_sp(16)` rounds down to a multiple of 16. -/
theorem toNat_and_not_fifteen (x : UInt64) : (x &&& ~~~(16 - 1)).toNat = 16 * (x.toNat / 16) := by
  have hx := x.toNat_lt
  rw [UInt64.toNat_and, show ((~~~(16 - 1) : UInt64)).toNat = (2 ^ 60 - 1) * 2 ^ 4 by decide]
  apply Nat.eq_of_testBit_eq
  intro j
  rw [Nat.testBit_and, Nat.testBit_mul_two_pow, Nat.mul_comm, show 16 = 2 ^ 4 by rfl,
    Nat.testBit_mul_two_pow, Nat.testBit_two_pow_sub_one, Nat.testBit_div_two_pow]
  by_cases hj : 4 ≤ j
  · rw [Nat.sub_add_cancel hj]
    by_cases hj' : j < 64
    · simp [hj]
      omega
    · rw [Nat.testBit_lt_two_pow (Nat.lt_of_lt_of_le hx (Nat.pow_le_pow_right (by decide) (by omega)))]
      simp
  · simp [hj]

/-- `s'` is `s` with `sp` lowered by `n` bytes, modulo `2^64`. -/
structure Lowered (n : Nat) (s s' : UserStack) : Prop where
  stackBottom_eq : s'.stackBottom = s.stackBottom
  stackTop_eq : s'.stackTop = s.stackTop
  frames_eq : s'.frames = s.frames
  sp_add : (s'.sp.toNat + n) % 2 ^ 64 = s.sp.toNat

theorem Lowered.refl (s : UserStack) : Lowered 0 s s :=
  ⟨rfl, rfl, rfl, by simp⟩

theorem Lowered.trans {m n : Nat} {s s' s'' : UserStack} (h : Lowered m s s') (h' : Lowered n s' s'') :
    Lowered (m + n) s s'' := by
  refine ⟨h'.stackBottom_eq.trans h.stackBottom_eq, h'.stackTop_eq.trans h.stackTop_eq,
    h'.frames_eq.trans h.frames_eq, ?_⟩
  have h1 := h.sp_add
  have h2 := h'.sp_add
  omega

/-- Every successful run of `x` lowers `sp` by `n` and keeps the rest of the
stack. -/
def LowersBy {α : Type} (n : Nat) (x : StackM α) : Prop :=
  ∀ st a st', x.run st = .ok a st' → Lowered n st.stack st'.stack

section LowersBy

variable {α β : Type}

theorem LowersBy.congr {m n : Nat} {x : StackM α} (h : LowersBy m x) (hmn : m = n) : LowersBy n x :=
  hmn ▸ h

theorem LowersBy.of_stack {x : StackM α} (h : ∀ st a st', x.run st = .ok a st' → st'.stack = st.stack) :
    LowersBy 0 x := by
  intro st a st' hr
  rw [h st a st' hr]
  exact Lowered.refl _

theorem LowersBy.pure (a : α) : LowersBy 0 (Pure.pure a : StackM α) :=
  LowersBy.of_stack fun _ _ _ h => by cases h; rfl

theorem LowersBy.get : LowersBy 0 (MonadState.get : StackM StackState) :=
  LowersBy.of_stack fun _ _ _ h => by cases h; rfl

theorem LowersBy.bind {m n : Nat} {x : StackM α} {f : α → StackM β} (hx : LowersBy m x)
    (hf : ∀ a, LowersBy n (f a)) : LowersBy (m + n) (x >>= f) := by
  intro st b st'' h
  obtain ⟨a, st', h1, h2⟩ := run_bind_eq_ok.mp h
  exact (hx st a st' h1).trans (hf a st' b st'' h2)

theorem LowersBy.forM {n : Nat} {f : α → StackM PUnit} (hf : ∀ a, LowersBy n (f a)) :
    ∀ l : List α, LowersBy (n * l.length) (l.forM f)
  | [] => LowersBy.pure _
  | a :: l => by
    show LowersBy _ (f a >>= fun _ => l.forM f)
    exact ((hf a).bind fun _ => LowersBy.forM hf l).congr (by simp [Nat.mul_succ, Nat.add_comm])

end LowersBy

theorem lowersBy_frameAt (i : UInt64) : LowersBy 0 (frameAt i) := by
  refine LowersBy.of_stack fun st a st' h => ?_
  unfold frameAt at h
  obtain ⟨s, st1, hget, h⟩ := run_bind_eq_ok.mp h
  cases hget
  split at h <;> cases h
  rfl

theorem lowersBy_writePhys (pa : Nat) (bytes : List UInt8) : LowersBy 0 (writePhys pa bytes) :=
  LowersBy.of_stack fun _ _ _ h => by cases h; rfl

theorem lowersBy_modifySp (n : Nat) : LowersBy n (modifySp (· - n.toUInt64)) := by
  intro st a st' h
  cases h
  refine ⟨rfl, rfl, rfl, ?_⟩
  have := st.stack.sp.toNat_lt
  show ((st.stack.sp - n.toUInt64).toNat + n) % 2 ^ 64 = _
  rw [UInt64.toNat_sub]
  simp only [Nat.toUInt64_eq, UInt64.toNat_ofNat']
  omega

theorem lowersBy_pushU64 (val : UInt64) : LowersBy 8 (pushU64 val) :=
  (lowersBy_modifySp 8).bind fun _ => LowersBy.get.bind fun _ =>
    (lowersBy_frameAt _).bind fun _ => lowersBy_writePhys _ _

/-- The vector area is `5 + 2 * auxv.len() + envc + argc` words. -/
theorem lowersBy_pushVectors (argc : Nat) (envpAddrs argvAddrs : List UInt64) (auxv : List AuxEntry) :
    LowersBy (8 * (5 + 2 * auxv.length + envpAddrs.length + argvAddrs.length))
      (pushVectors argc envpAddrs argvAddrs auxv) := by
  have hentry : ∀ entry : AuxEntry, LowersBy 16 (do pushU64 entry.aVal; pushU64 entry.aType) :=
    fun entry => (lowersBy_pushU64 _).bind fun _ => lowersBy_pushU64 _
  unfold pushVectors
  refine ((lowersBy_pushU64 _).bind fun _ => (lowersBy_pushU64 _).bind fun _ =>
    (LowersBy.forM hentry _).bind fun _ => (lowersBy_pushU64 _).bind fun _ =>
    (LowersBy.forM lowersBy_pushU64 _).bind fun _ => (lowersBy_pushU64 _).bind fun _ =>
    (LowersBy.forM lowersBy_pushU64 _).bind fun _ => lowersBy_pushU64 _).congr ?_
  simp only [List.length_reverse]
  ring

/-- The final `sp` of `setup_linux_stack` is 16-aligned exactly when
`args.len() + env.len()` is odd; otherwise it is 8 bytes off. -/
theorem setupLinuxStack_sp_mod {args env : List (List UInt8)} {auxv : List AuxEntry}
    {st st' : StackState} {sp : UInt64} (h : (setupLinuxStack args env auxv).run st = .ok sp st') :
    sp.toNat % 16 = if (args.length + env.length) % 2 = 0 then 8 else 0 := by
  unfold setupLinuxStack at h
  dsimp only at h
  -- the first alignment, the padding and the strings: whatever they leave
  obtain ⟨_, s1, -, h⟩ := run_bind_eq_ok.mp h
  obtain ⟨_, s2, -, h⟩ := run_bind_eq_ok.mp h
  obtain ⟨envs, s3, henvs, h⟩ := run_bind_eq_ok.mp h
  obtain ⟨argvs, s4, hargvs, h⟩ := run_bind_eq_ok.mp h
  -- the second alignment, then the vector area
  obtain ⟨_, s5, h5, h⟩ := run_bind_eq_ok.mp h
  obtain ⟨_, s6, h6, h⟩ := run_bind_eq_ok.mp h
  obtain ⟨s7, s7', h7, h⟩ := run_bind_eq_ok.mp h
  cases h7
  cases h
  have haligned : s5.stack.sp.toNat % 16 = 0 := by
    cases h5
    show (s4.stack.sp &&& ~~~(16 - 1)).toNat % 16 = 0
    rw [toNat_and_not_fifteen]
    omega
  have hlow := (lowersBy_pushVectors args.length envs.reverse argvs.reverse auxv _ _ _ h6).sp_add
  simp only [List.length_reverse, length_of_run_mapM henvs, length_of_run_mapM hargvs] at hlow
  split <;> omega

/-- One argument and one environment string on a two-page stack: the final
`sp` is `0x7000_1FB8`, 8 bytes off a 16-byte boundary. -/
theorem setupLinuxStack_sp_mod_on_two_strings :
    ∃ sp st', (setupLinuxStack [[115, 104]] [[65, 61, 49]] []).run
      ⟨UserStack.new 0x7000_0000 0x7000_2000 [0x4000_0000, 0x4000_1000], fun _ => 0⟩ = .ok sp st' ∧
      sp.toNat % 16 = 8 := by
  have hout : outcome (setupLinuxStack [[115, 104]] [[65, 61, 49]] [])
      ⟨UserStack.new 0x7000_0000 0x7000_2000 [0x4000_0000, 0x4000_1000], fun _ => 0⟩ = .ok 0x7000_1FB8 := by
    decide +kernel
  obtain ⟨st', h⟩ := outcome_eq_ok.mp hout
  exact ⟨_, st', h, (setupLinuxStack_sp_mod h).trans (by decide)⟩

end Akuma.Elf
