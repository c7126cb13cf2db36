import Akuma.Lib.Panic
import Akuma.Mmu.AddressSpace

/-!
# Signal frames: `rt_sigreturn`

The return half of signal delivery in `exceptions.rs`: `do_rt_sigreturn`
checks that the two pages a signal frame can span are mapped in the current
user table, then loads the saved registers, the signal mask and the FPSIMD
record from the frame and installs them in the trap frame.

The kernel reads the frame through the user's virtual address, so each load
goes through the table `TTBR0_EL1` holds. A load at or above `2 ^ 48` is
outside the TTBR0 range (`T0SZ = 16`) and faults, as does a load from an
address the table does not map; a fault is the error of the model, with the
faulting address. Addresses are computed as `usize`, modulo `2 ^ 64`.

Memory holds 64-bit words at byte addresses (`Mmu.Machine`); a 32-bit load
takes the low half of the word at its address.
-/

namespace Akuma.Signal

open Akuma.Mmu Panicking

/-! ## Frame layout -/

/-- `SIGFRAME_SIZE`. -/
def sigframeSize : Nat := 128 + 176 + 280 + 528 + 8
/-- `SIGFRAME_UCONTEXT`. -/
def sigframeUcontext : Nat := 128
/-- `SIGFRAME_MCONTEXT`. -/
def sigframeMcontext : Nat := sigframeUcontext + 176
/-- `SIGFRAME_FPSIMD`. -/
def sigframeFpsimd : Nat := sigframeMcontext + 280
/-- `FPSIMD_MAGIC`. -/
def fpsimdMagic : Nat := 0x46508001

/-- `UserTrapFrame` with the FPSIMD save area the EL0 handler keeps beside
it: the 32 vector registers at `frame + 304` as 64 words, `fpcr` at
`frame + 816` and `fpsr` at `frame + 824`. -/
structure UserTrapFrame where
  x : Fin 31 → UInt64
  spEl0 : UInt64
  elrEl1 : UInt64
  spsrEl1 : UInt64
  tpidrEl0 : UInt64
  vregs : Fin 64 → UInt64
  fpcr : UInt64
  fpsr : UInt64

/-! ## Loads through the user table -/

/-- A 64-bit load by the kernel at the user address `va`. -/
def loadU64 (m : Machine) (ttbr0 va : Nat) : Except Nat UInt64 :=
  if va < 2 ^ 48 then
    match translateUserVa m (ttbr0 &&& 0x0000_FFFF_FFFF_F000) va with
    | some pa => .ok (UInt64.ofNat (m.mem pa))
    | none => .error va
  else .error va

/-- A 32-bit load, the low half of the 64-bit one. -/
def loadU32 (m : Machine) (ttbr0 va : Nat) : Except Nat UInt64 :=
  (fun w => w &&& 0xFFFF_FFFF) <$> loadU64 m ttbr0 va

/-- `n` consecutive 64-bit loads from `base`, as a register file. -/
def loadWords (m : Machine) (ttbr0 base : Nat) (n : Nat) : Except Nat (Fin n → UInt64) := do
  let words ← (List.range n).mapM (fun k => loadU64 m ttbr0 ((base + 8 * k) % 2 ^ 64))
  pure (fun k => words.getD k 0)

/-! ## `do_rt_sigreturn` -/

/-- What a successful `rt_sigreturn` produces: the value returned in `x0`,
the restored trap frame, and the thread signal mask it installs. -/
structure SigreturnOutcome where
  x0 : UInt64
  frame : UserTrapFrame
  sigmask : UInt64

/-- The SPSR check of `do_rt_sigreturn`: a value with non-zero mode bits
`M[4:0]` has them cleared; every other bit is kept. -/
def sanitizeSpsr (restoredSpsr : UInt64) : UInt64 :=
  if restoredSpsr &&& 0x1F ≠ 0 then restoredSpsr &&& ~~~0x1F else restoredSpsr

/-- The FPSIMD part of `do_rt_sigreturn`: if the record at `fp` carries
`FPSIMD_MAGIC`, its `fpsr`, `fpcr` and vector registers replace those of
the trap frame. -/
def restoreFpsimd (m : Machine) (ttbr0 fp : Nat) (frame : UserTrapFrame) :
    Except Nat UserTrapFrame := do
  let magic ← loadU32 m ttbr0 fp
  if magic.toNat = fpsimdMagic then
    let fpsrVal ← loadU32 m ttbr0 ((fp + 8) % 2 ^ 64)
    let fpcrVal ← loadU32 m ttbr0 ((fp + 12) % 2 ^ 64)
    let vregs ← loadWords m ttbr0 ((fp + 16) % 2 ^ 64) 64
    pure { frame with fpsr := fpsrVal, fpcr := fpcrVal, vregs := vregs }
  else pure frame

/-- The loads of `do_rt_sigreturn` from the frame at `sigframeSp`, once its
page checks have passed: the registers, `sp`, `pc` and `pstate` of the
saved `mcontext`, the saved signal mask, and the FPSIMD record. -/
def readSigframe (m : Machine) (ttbr0 sigframeSp : Nat) (frame : UserTrapFrame) :
    Except Nat SigreturnOutcome := do
  let mc := (sigframeSp + sigframeMcontext) % 2 ^ 64
  let x ← loadWords m ttbr0 ((mc + 8) % 2 ^ 64) 31
  let spEl0 ← loadU64 m ttbr0 ((mc + 256) % 2 ^ 64)
  let elrEl1 ← loadU64 m ttbr0 ((mc + 264) % 2 ^ 64)
  let restoredSpsr ← loadU64 m ttbr0 ((mc + 272) % 2 ^ 64)
  let frame := { frame with x, spEl0, elrEl1, spsrEl1 := sanitizeSpsr restoredSpsr }
  let savedMask ← loadU64 m ttbr0 ((sigframeSp + sigframeUcontext + 40) % 2 ^ 64)
  let frame ← restoreFpsimd m ttbr0 ((sigframeSp + sigframeFpsimd) % 2 ^ 64) frame
  pure ⟨frame.x 0, frame, savedMask⟩

/-- `do_rt_sigreturn` with `TTBR0_EL1 = ttbr0`. `none` is the source's
`None`, returned before anything is read or written. The page of an address
is `pageAlignDown`, the source's `& !0xFFF`. -/
def doRtSigreturn (m : Machine) (ttbr0 : Nat) (frame : UserTrapFrame) :
    Except Nat (Option SigreturnOutcome) :=
  let sigframeSp := frame.spEl0.toNat
  let firstPage := pageAlignDown sigframeSp
  let lastPage := pageAlignDown ((sigframeSp + sigframeSize - 1) % 2 ^ 64)
  if !isCurrentUserPageMapped m ttbr0 firstPage then .ok none
  else if lastPage ≠ firstPage ∧ !isCurrentUserPageMapped m ttbr0 lastPage then .ok none
  else some <$> readSigframe m ttbr0 sigframeSp frame

/-! ## The page checks are the only gate

Every load of the frame succeeds once the walks of its first and last byte
do: a frame is shorter than a page, so those two pages hold all of it.
Nothing in between looks at what the descriptors permit. -/

section Gate

variable {m : Machine} {ttbr0 : Nat}

/-- Every address of the frame at `sp` is mapped in the table of `ttbr0`. -/
def FrameMapped (m : Machine) (ttbr0 sp : Nat) : Prop :=
  ∀ a, sp ≤ a → a < sp + sigframeSize →
    isPageMappedPtr m (ttbr0 &&& 0x0000_FFFF_FFFF_F000) a = true

theorem loadU64_ok_of_mapped {va : Nat} (hva : va < 2 ^ 48)
    (h : isPageMappedPtr m (ttbr0 &&& 0x0000_FFFF_FFFF_F000) va = true) :
    ∃ w, loadU64 m ttbr0 va = .ok w := by
  rw [isPageMappedPtr_eq_isSome_walk, Option.isSome_iff_exists] at h
  obtain ⟨l, hl⟩ := h
  rw [loadU64, if_pos hva, translateUserVa_eq_walk, hl]
  exact ⟨_, rfl⟩

theorem loadWords_ok {base n : Nat}
    (h : ∀ k < n, ∃ w, loadU64 m ttbr0 ((base + 8 * k) % 2 ^ 64) = .ok w) :
    ∃ f, loadWords m ttbr0 base n = .ok f := by
  obtain ⟨ws, hws⟩ := mapM_ok_of_forall (List.range n) fun k hk => h k (List.mem_range.mp hk)
  rw [loadWords, hws]
  exact ⟨_, rfl⟩

variable {sp : Nat}

/-- An offset from a frame address, computed as `usize`. -/
theorem frameAddr_add (sp a c : Nat) : ((sp + a) % 2 ^ 64 + c) % 2 ^ 64 = (sp + (a + c)) % 2 ^ 64 := by
  rw [Nat.mod_add_mod, Nat.add_assoc]

theorem load_frame_ok (hfit : sp + sigframeSize ≤ 2 ^ 48) (hm : FrameMapped m ttbr0 sp)
    {c : Nat} (hc : c < sigframeSize) : ∃ w, loadU64 m ttbr0 ((sp + c) % 2 ^ 64) = .ok w := by
  have hsize : sigframeSize = 1120 := rfl
  rw [Nat.mod_eq_of_lt (by omega)]
  exact loadU64_ok_of_mapped (by omega) (hm _ (by omega) (by omega))

theorem restoreFpsimd_ok (hfit : sp + sigframeSize ≤ 2 ^ 48) (hm : FrameMapped m ttbr0 sp)
    (frame : UserTrapFrame) :
    ∃ frame', restoreFpsimd m ttbr0 ((sp + sigframeFpsimd) % 2 ^ 64) frame = .ok frame' := by
  have hsize : sigframeSize = 1120 := rfl
  have hfp : sigframeFpsimd = 584 := rfl
  have load := fun c (hc : c < sigframeSize) => load_frame_ok hfit hm hc
  obtain ⟨magic, hmagic⟩ := load 584 (by omega)
  obtain ⟨fpsr, hfpsr⟩ := load 592 (by omega)
  obtain ⟨fpcr, hfpcr⟩ := load 596 (by omega)
  obtain ⟨vregs, hvregs⟩ := @loadWords_ok m ttbr0 ((sp + 600) % 2 ^ 64) 64
    fun k hk => by
      rw [frameAddr_add]
      exact load (600 + 8 * k) (by omega)
  rw [hfp]
  unfold restoreFpsimd
  simp only [loadU32, hmagic, map_ok, ok_bind, frameAddr_add, hfpsr, hfpcr, hvregs]
  split
  · exact ⟨_, rfl⟩
  · exact ⟨_, rfl⟩

theorem readSigframe_ok (hfit : sp + sigframeSize ≤ 2 ^ 48) (hm : FrameMapped m ttbr0 sp)
    (frame : UserTrapFrame) : ∃ o, readSigframe m ttbr0 sp frame = .ok o := by
  have load := fun c (hc : c < sigframeSize) => load_frame_ok hfit hm hc
  have hsize : sigframeSize = 1120 := rfl
  have mc : ∀ c, ((sp + sigframeMcontext) % 2 ^ 64 + c) % 2 ^ 64 = (sp + (304 + c)) % 2 ^ 64 :=
    frameAddr_add sp sigframeMcontext
  obtain ⟨x, hx⟩ := @loadWords_ok m ttbr0 ((sp + 312) % 2 ^ 64) 31
    fun k hk => by
      rw [frameAddr_add]
      exact load (312 + 8 * k) (by omega)
  obtain ⟨spEl0, hspEl0⟩ := load 560 (by omega)
  obtain ⟨elrEl1, helrEl1⟩ := load 568 (by omega)
  obtain ⟨spsr, hspsr⟩ := load 576 (by omega)
  obtain ⟨mask, hmask⟩ := load 168 (by omega)
  obtain ⟨frame', hframe'⟩ := restoreFpsimd_ok hfit hm
    { frame with x, spEl0, elrEl1, spsrEl1 := sanitizeSpsr spsr }
  have hmask' : (sp + sigframeUcontext + 40) % 2 ^ 64 = (sp + 168) % 2 ^ 64 := rfl
  have h312 : (sp + (304 + 8)) % 2 ^ 64 = (sp + 312) % 2 ^ 64 := rfl
  have h560 : (sp + (304 + 256)) % 2 ^ 64 = (sp + 560) % 2 ^ 64 := rfl
  have h568 : (sp + (304 + 264)) % 2 ^ 64 = (sp + 568) % 2 ^ 64 := rfl
  have h576 : (sp + (304 + 272)) % 2 ^ 64 = (sp + 576) % 2 ^ 64 := rfl
  rw [readSigframe, mc, mc, mc, mc, h312, h560, h568, h576, hx, ok_bind, hspEl0, ok_bind,
    helrEl1, ok_bind, hspsr, ok_bind, hmask', hmask, ok_bind, hframe', ok_bind]
  exact ⟨_, rfl⟩

/-- The two pages `do_rt_sigreturn` checks cover the whole frame. -/
theorem frameMapped_of_pages (hne : ttbr0 ≠ 0) (hfit : sp + sigframeSize ≤ 2 ^ 48)
    (hfirst : isCurrentUserPageMapped m ttbr0 sp = true)
    (hlast : isCurrentUserPageMapped m ttbr0 (sp + sigframeSize - 1) = true) :
    FrameMapped m ttbr0 sp := by
  have hsize : sigframeSize = 1120 := rfl
  intro a ha ha'
  rw [isCurrentUserPageMapped_eq m hne (by omega)] at hfirst hlast
  -- a frame shorter than a page meets at most the pages of its two ends
  rcases (by omega : a / 4096 = sp / 4096 ∨ a / 4096 = (sp + sigframeSize - 1) / 4096) with h | h
  · rwa [isPageMappedPtr_of_same_page m (by omega) (by omega) h]
  · rwa [isPageMappedPtr_of_same_page m (by omega) (by omega) h]

/-- `do_rt_sigreturn` restores a frame whenever the walks of its first and
last byte succeed; what the descriptors permit is not looked at. -/
theorem doRtSigreturn_restores (hne : ttbr0 ≠ 0) (frame : UserTrapFrame)
    (hfit : frame.spEl0.toNat + sigframeSize ≤ 2 ^ 48)
    (hfirst : isCurrentUserPageMapped m ttbr0 frame.spEl0.toNat = true)
    (hlast : isCurrentUserPageMapped m ttbr0 (frame.spEl0.toNat + sigframeSize - 1) = true) :
    ∃ o, doRtSigreturn m ttbr0 frame = .ok (some o) := by
  have hsize : sigframeSize = 1120 := rfl
  obtain ⟨o, ho⟩ := readSigframe_ok hfit (frameMapped_of_pages hne hfit hfirst hlast) frame
  have hwrap : (frame.spEl0.toNat + sigframeSize - 1) % 2 ^ 64 =
      frame.spEl0.toNat + sigframeSize - 1 := Nat.mod_eq_of_lt (by omega)
  refine ⟨o, ?_⟩
  unfold doRtSigreturn
  dsimp only
  rw [isCurrentUserPageMapped_pageAlignDown m (by omega), hfirst, hwrap,
    isCurrentUserPageMapped_pageAlignDown m (by omega), hlast]
  simp [ho]

/-- A frame at `0x10000` whose page a 2 MiB block maps. -/
theorem doRtSigreturn_restores_on_block :
    ∃ o, doRtSigreturn ⟨fun a => if a = 0x1000 then 0x2003 else if a = 0x2000 then 0x3003
        else if a = 0x3000 then 0x401 else 0, []⟩ 0x1000
      ⟨fun _ => 0, 0x10000, 0, 0, 0, fun _ => 0, 0, 0⟩ = .ok (some o) :=
  doRtSigreturn_restores (by decide) _ (by decide) (by decide +kernel) (by decide +kernel)

end Gate

/-! ## The restored `pstate` -/

section Spsr

variable {m : Machine} {ttbr0 : Nat}

theorem sanitizeSpsr_mode (v : UInt64) : sanitizeSpsr v &&& 0x1F = 0 := by
  unfold sanitizeSpsr
  split
  · rw [UInt64.and_assoc]
    simp
  · simpa using ‹¬v &&& 0x1F ≠ 0›

theorem sanitizeSpsr_keeps (v : UInt64) : sanitizeSpsr v &&& ~~~0x1F = v &&& ~~~0x1F := by
  unfold sanitizeSpsr
  split
  · rw [UInt64.and_assoc, UInt64.and_self]
  · rfl

theorem restoreFpsimd_spsrEl1 {fp : Nat} {frame frame' : UserTrapFrame}
    (h : restoreFpsimd m ttbr0 fp frame = .ok frame') : frame'.spsrEl1 = frame.spsrEl1 := by
  unfold restoreFpsimd at h
  obtain ⟨magic, -, h⟩ := bind_eq_ok.mp h
  split at h
  · obtain ⟨_, -, h⟩ := bind_eq_ok.mp h
    obtain ⟨_, -, h⟩ := bind_eq_ok.mp h
    obtain ⟨_, -, h⟩ := bind_eq_ok.mp h
    cases h
    rfl
  · cases h
    rfl

theorem readSigframe_spsrEl1 {sp : Nat} {frame : UserTrapFrame} {o : SigreturnOutcome}
    (h : readSigframe m ttbr0 sp frame = .ok o) :
    ∃ v, loadU64 m ttbr0 (((sp + sigframeMcontext) % 2 ^ 64 + 272) % 2 ^ 64) = .ok v ∧
      o.frame.spsrEl1 = sanitizeSpsr v := by
  unfold readSigframe at h
  obtain ⟨_, -, h⟩ := bind_eq_ok.mp h
  obtain ⟨_, -, h⟩ := bind_eq_ok.mp h
  obtain ⟨_, -, h⟩ := bind_eq_ok.mp h
  obtain ⟨v, hv, h⟩ := bind_eq_ok.mp h
  obtain ⟨_, -, h⟩ := bind_eq_ok.mp h
  obtain ⟨fr, hfr, h⟩ := bind_eq_ok.mp h
  cases h
  exact ⟨v, hv, restoreFpsimd_spsrEl1 hfr⟩

theorem readSigframe_of_doRtSigreturn {frame : UserTrapFrame} {o : SigreturnOutcome}
    (h : doRtSigreturn m ttbr0 frame = .ok (some o)) :
    readSigframe m ttbr0 frame.spEl0.toNat frame = .ok o := by
  unfold doRtSigreturn at h
  dsimp only at h
  split_ifs at h
  · cases h
  · cases h
  · cases hr : readSigframe m ttbr0 frame.spEl0.toNat frame with
    | error e => rw [hr] at h; cases h
    | ok o' => rw [hr] at h; cases h; rfl

/-- The SPSR `rt_sigreturn` installs is the saved `pstate` with its mode
bits `M[4:0]` cleared and every other bit, the `D`, `A`, `I` and `F` masks
among them, as the frame held it. -/
theorem doRtSigreturn_spsrEl1 {frame : UserTrapFrame} {o : SigreturnOutcome}
    (h : doRtSigreturn m ttbr0 frame = .ok (some o)) :
    ∃ v, loadU64 m ttbr0 ((frame.spEl0.toNat + sigframeMcontext + 272) % 2 ^ 64) = .ok v ∧
      o.frame.spsrEl1 &&& 0x1F = 0 ∧ o.frame.spsrEl1 &&& ~~~0x1F = v &&& ~~~0x1F := by
  obtain ⟨v, hv, hspsr⟩ := readSigframe_spsrEl1 (readSigframe_of_doRtSigreturn h)
  rw [Nat.mod_add_mod] at hv
  exact ⟨v, hv, hspsr ▸ sanitizeSpsr_mode v, hspsr ▸ sanitizeSpsr_keeps v⟩

theorem doRtSigreturn_spsrEl1_on_block :
    ∃ (m : Machine) (ttbr0 : Nat) (frame : UserTrapFrame) (o : SigreturnOutcome),
      doRtSigreturn m ttbr0 frame = .ok (some o) ∧
      ∃ v, loadU64 m ttbr0 ((frame.spEl0.toNat + sigframeMcontext + 272) % 2 ^ 64) = .ok v ∧
        o.frame.spsrEl1 &&& 0x1F = 0 ∧ o.frame.spsrEl1 &&& ~~~0x1F = v &&& ~~~0x1F :=
  let ⟨o, ho⟩ := doRtSigreturn_restores_on_block
  ⟨_, _, _, o, ho, doRtSigreturn_spsrEl1 ho⟩

end Spsr

/-! ## A frame on the kernel's identity map

Every user table that `UserAddressSpace::new` builds maps RAM with EL1-only
2 MiB blocks at the same addresses. A stack pointer there passes the page
checks of `rt_sigreturn`, so the registers and `pstate` are loaded from
kernel memory, and a saved `pstate` with the interrupt masks set keeps them
set. -/

theorem doRtSigreturn_kernel_window_frame :
    ∃ s m, UserAddressSpace.new ⟨0x4000_0000, 0x2000_0000, 0⟩ (some 1)
        ⟨fun _ => 0, (List.range 8).map (0x4100_0000 + 0x1000 * ·)⟩ = some (s, m) ∧
      isCurrentUserPageMapped m s.ttbr0 0x4000_0000 = true ∧
      el0Readable m s.l0Frame 0x4000_0000 = false ∧
      ((doRtSigreturn ((m.write 0x4000_0240 0x3C5).write 0x4000_0138 0xDEAD) s.ttbr0
          ⟨fun _ => 0, 0x4000_0000, 0, 0, 0, fun _ => 0, 0, 0⟩).toOption.join.map
        fun o => (o.x0, o.frame.spsrEl1)) = some (0xDEAD, 0x3C0) := by
  have h : (UserAddressSpace.new ⟨0x4000_0000, 0x2000_0000, 0⟩ (some 1)
      ⟨fun _ => 0, (List.range 8).map (0x4100_0000 + 0x1000 * ·)⟩).isSome := by decide +kernel
  exact ⟨_, _, (Option.some_get h).symm, by decide +kernel⟩

end Akuma.Signal
