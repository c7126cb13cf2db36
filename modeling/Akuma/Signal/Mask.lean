import Akuma.Syscall.Futex
import Akuma.Lib.WordBitmap

/-!
# Signal masks

The per-thread signal state of `threading/mod.rs` (`THREAD_SIGNAL_MASK`, the
restore-sigmask slot `THREAD_RESTORE_SIGMASK` with its pending flag, and
`PENDING_SIGNALS`), the calls that change it (`rt_sigprocmask`,
`rt_sigsuspend`, `rt_sigaction`), and the mask side of delivery: the check
on the way back to user mode, `try_deliver_signal`, which saves a mask in
the frame it builds and blocks the handler's signals, and `rt_sigreturn`,
which restores the saved mask.

The signal frames of a thread are kept as the list of their saved masks
(`uc_sigmask`), innermost first: an `rt_sigreturn` on an unmodified frame
restores the mask its delivery wrote. The rest of a frame is
`Akuma.Signal.Frame`'s, and the registers are not modelled. What
`try_deliver_signal` reads of memory and registers is a `DeliveryEnv`:
whether a restorer is at hand, whether the stack pointer is already on the
alternate stack, and whether the frame's pages can be mapped. Delivery here
is on the way back from a system call, where `is_fault` is false.

`rt_sigsuspend` parks the caller's mask in the restore slot. Only a frame
built by `try_deliver_signal`, or the wake-up without a deliverable signal,
takes it back out.
-/

namespace Akuma.Signal

open Akuma.Syscall

/-! ## Constants -/

/-- `SIG_BLOCK`. -/
def sigBlock : Nat := 0
/-- `SIG_UNBLOCK`. -/
def sigUnblock : Nat := 1
/-- `SIG_SETMASK`. -/
def sigSetmask : Nat := 2
/-- `MAX_SIGNALS`. -/
def maxSignals : Nat := 64
/-- SIGURG, which waits for an alternate stack. -/
def sigurg : Nat := 23
/-- `SA_ONSTACK`. -/
def saOnstack : UInt64 := 0x08000000
/-- `SA_NODEFER`. -/
def saNodefer : UInt64 := 0x40000000

/-- SIGKILL and SIGSTOP, bits 8 and 18: the source's `unblockable` and
`force_bits`. -/
def unblockable : UInt64 := ((1 : UInt64) <<< 8) ||| ((1 : UInt64) <<< 18)

/-- `1u64 << (sig - 1)`, the bit of signal `sig`. -/
def sigBit (sig : Nat) : UInt64 := WordBitmap.bit (sig - 1)

/-! ## State -/

/-- `SignalHandler`. -/
inductive SignalHandler
  | default
  | ignore
  | userFn (addr : Nat)
  deriving DecidableEq, Repr

/-- `SignalAction`, without the restorer. -/
structure SignalAction where
  handler : SignalHandler
  flags : UInt64
  mask : UInt64
  deriving DecidableEq, Repr

/-- `SignalAction::default()`. -/
def SignalAction.dfl : SignalAction := ⟨.default, 0, 0⟩

/-- One thread's signal state: its mask, the restore-sigmask slot and flag,
its pending set, whether it has an alternate stack (`alt_sp ≠ 0`), and the
masks its signal frames saved, innermost first. -/
structure ThreadSignals where
  mask : UInt64
  restoreMask : UInt64
  restorePending : Bool
  pending : UInt64
  altStack : Bool
  frames : List UInt64
  deriving DecidableEq, Repr

/-- What `try_deliver_signal` finds outside the signal state: whether a
restorer is at hand (the action's own, or the sigreturn trampoline, mapped
on the first delivery), whether the user stack pointer lies on the thread's
alternate stack, and whether the pages of the new frame can be mapped. -/
structure DeliveryEnv where
  restorer : Bool
  onAltStack : Bool
  framePages : Bool
  deriving DecidableEq, Repr

/-- Nothing outside the signal state stands in a delivery's way. -/
def DeliveryEnv.clear : DeliveryEnv := ⟨true, false, true⟩

/-- A thread, the signal actions of its process by `sig - 1`, and what its
deliveries find outside the signal state. -/
structure SigState where
  thread : ThreadSignals
  actions : Nat → SignalAction
  env : DeliveryEnv

/-! ## The thread's slots -/

namespace ThreadSignals

/-- `set_thread_signal_mask`. -/
def setThreadSignalMask (s : ThreadSignals) (mask : UInt64) : ThreadSignals :=
  { s with mask := mask &&& ~~~unblockable }

/-- `or_thread_signal_mask`. -/
def orThreadSignalMask (s : ThreadSignals) (bits : UInt64) : ThreadSignals :=
  { s with mask := s.mask ||| (bits &&& ~~~unblockable) }

/-- `set_restore_sigmask`. -/
def setRestoreSigmask (s : ThreadSignals) (saved : UInt64) : ThreadSignals :=
  { s with restoreMask := saved, restorePending := true }

/-- `take_restore_sigmask`. -/
def takeRestoreSigmask (s : ThreadSignals) : Option UInt64 × ThreadSignals :=
  if s.restorePending then (some s.restoreMask, { s with restorePending := false })
  else (none, s)

/-- `pend_signal_for_thread`; signal 0 clears the set. -/
def pendSignal (s : ThreadSignals) (sig : Nat) : ThreadSignals :=
  if sig = 0 then { s with pending := 0 }
  else if sig ≤ 64 then { s with pending := s.pending ||| sigBit sig }
  else s

/-- `take_pending_signal`: the lowest pending signal that `mask` does not
block (SIGKILL and SIGSTOP always get through), taken out of the set. -/
def takePendingSignal (s : ThreadSignals) (mask : UInt64) : Option Nat × ThreadSignals :=
  if s.pending = 0 then (none, s)
  else
    let deliverable := s.pending &&& (~~~mask ||| unblockable)
    if deliverable = 0 then (none, s)
    else
      let sig := WordBitmap.trailingZeros deliverable + 1
      (some sig, { s with pending := s.pending &&& ~~~sigBit sig })

end ThreadSignals

open ThreadSignals

/-! ## The calls -/

/-- `sys_rt_sigprocmask`, with the new set read (`none` for a null pointer);
the copy-out of the old set and the `EFAULT` paths are not modelled. -/
def sysRtSigprocmask (s : ThreadSignals) (how : Nat) (set : Option UInt64) (sigsetsize : Nat) :
    ThreadSignals × Nat :=
  if sigsetsize ≠ 8 then (s, einval)
  else
    match set with
    | none => (s, 0)
    | some newMask =>
      let cur := s.mask
      if how = sigBlock then (s.setThreadSignalMask (cur ||| (newMask &&& ~~~unblockable)), 0)
      else if how = sigUnblock then (s.setThreadSignalMask (cur &&& ~~~newMask), 0)
      else if how = sigSetmask then (s.setThreadSignalMask (newMask &&& ~~~unblockable), 0)
      else (s, einval)

/-- `sys_rt_sigsuspend`, with the mask read: `none` while it sleeps. The
restore slot is armed with the caller's mask before the suspend mask goes
in. A deliverable pending signal ends the wait with the slot still armed;
an interruption without one disarms it and restores the mask. -/
def sysRtSigsuspend (s : ThreadSignals) (newMask : UInt64) (sigsetsize : Nat) (interrupted : Bool) :
    Option (ThreadSignals × Nat) :=
  if sigsetsize ≠ 8 then some (s, einval)
  else
    let suspendMask := newMask &&& ~~~unblockable
    let savedMask := s.mask
    let s := (s.setRestoreSigmask savedMask).setThreadSignalMask suspendMask
    if s.pending &&& (~~~suspendMask ||| unblockable) ≠ 0 then some (s, eintr)
    else if interrupted then
      let r := s.takeRestoreSigmask
      some ((match r.1 with
        | some m => r.2.setThreadSignalMask m
        | none => r.2), eintr)
    else none

/-- A pointer argument as a call finds it: null or failing
`validate_user_ptr`, so that the call skips it; valid, with a copy that
faults; or valid, with the value copied. -/
inductive UserPtr (α : Type) where
  | skipped
  | fault
  | ok (a : α)
  deriving DecidableEq, Repr

/-- `sys_rt_sigaction` of a caller that has a process (`hasProcess`), with
what it finds at `act_ptr` and `oldact_ptr`: the actions after the call, the
old action written to `oldact_ptr`, and the value returned. `sa_mask` counts
only when `sigsetsize` is 8, both ways. -/
def sysRtSigaction (actions : Nat → SignalAction) (hasProcess : Bool) (sig : Nat)
    (act : UserPtr SignalAction) (oldact : UserPtr Unit) (sigsetsize : Nat) :
    (Nat → SignalAction) × Option SignalAction × Nat :=
  if sig = 0 ∨ sig > maxSignals then (actions, none, einval)
  else if sig = 9 ∨ sig = 19 then (actions, none, einval)
  else if !hasProcess then (actions, none, enosys)
  else
    let old := actions (sig - 1)
    -- the old action is copied out before the new one is read
    match oldact with
    | .fault => (actions, none, efault)
    | _ =>
      let written := match oldact with
        | .ok () => some { old with mask := if sigsetsize = 8 then old.mask else 0 }
        | _ => none
      match act with
      | .skipped => (actions, written, 0)
      | .fault => (actions, written, efault)
      | .ok a =>
        (Function.update actions (sig - 1) { a with mask := if sigsetsize = 8 then a.mask else 0 }, written, 0)

/-- `try_deliver_signal`, its mask side: only a handler gets a frame. The
frame saves the armed restore-sigmask if there is one, else the thread's
mask; then the signal itself (unless `SA_NODEFER`) and `sa_mask` are
blocked. There is no frame without a restorer or when a page of the frame
cannot be mapped. A handler that needs an alternate stack the thread lacks,
or a signal that arrives while the thread runs on its alternate stack, gets
its signal back as pending. -/
def tryDeliverSignal (actions : Nat → SignalAction) (env : DeliveryEnv) (s : ThreadSignals) (sig : Nat) :
    Bool × ThreadSignals :=
  -- `(signal as usize).wrapping_sub(1)` is out of range for signal 0
  if sig = 0 ∨ sig - 1 ≥ maxSignals then (false, s)
  else
    let action := actions (sig - 1)
    match action.handler with
    | .userFn _ =>
      if !env.restorer then (false, s)
      else if action.flags &&& saOnstack ≠ 0 ∧ !s.altStack then (false, s.pendSignal sig)
      -- re-entered on the alternate stack: a signal that is not a fault waits
      else if s.altStack ∧ env.onAltStack then (false, s.pendSignal sig)
      else if !env.framePages then (false, s)
      else
        let r := s.takeRestoreSigmask
        let s := { r.2 with frames := r.1.getD r.2.mask :: r.2.frames }
        let s := if action.flags &&& saNodefer = 0 ∧ 1 ≤ sig ∧ sig ≤ 64 ∧ sig ≠ 9 ∧ sig ≠ 19
          then s.orThreadSignalMask (sigBit sig) else s
        (true, s.orThreadSignalMask (action.mask &&& ~~~unblockable))
    | _ => (false, s)

/-- The check on the way back to user mode, after a system call and after
`rt_sigreturn`: take the lowest deliverable signal; a SIGURG waits while
the thread has no alternate stack. `x0` is the signal when a frame was
built, else `ret`. A signal without a handler is dropped here. -/
def returnToUser (actions : Nat → SignalAction) (env : DeliveryEnv) (s : ThreadSignals) (ret : Nat) :
    ThreadSignals × Nat :=
  match s.takePendingSignal s.mask with
  | (none, s) => (s, ret)
  | (some sig, s) =>
    if sig = sigurg ∧ !s.altStack then (s.pendSignal sig, ret)
    else
      let d := tryDeliverSignal actions env s sig
      (d.2, if d.1 then sig else ret)

/-- The mask side of `do_rt_sigreturn` on an unmodified frame: the saved
mask goes back through `set_thread_signal_mask`. Without a frame there is
nothing the model can restore. -/
def doRtSigreturnMask (s : ThreadSignals) : Option ThreadSignals :=
  match s.frames with
  | saved :: rest => some ({ s with frames := rest }.setThreadSignalMask saved)
  | [] => none

/-! ## Runs -/

/-- What happens on the thread: one of the mask calls (with an 8-byte set;
`rt_sigaction` with a new action copied in and no `oldact_ptr`), another
system call, a return from a handler, or another thread's `kill` pending a
signal on it. -/
inductive SigEvent
  | sigprocmask (how : Nat) (set : Option UInt64)
  | sigsuspend (mask : UInt64) (interrupted : Bool)
  | sigaction (sig : Nat) (act : SignalAction)
  | syscall
  | sigreturn
  | kill (sig : Nat)

/-- One event; `none` while `rt_sigsuspend` sleeps, or for a return without
a frame. Every system call goes back to user mode through `returnToUser`. -/
def SigEvent.apply (st : SigState) : SigEvent → Option (SigState × Nat)
  | .sigprocmask how set =>
    let r := sysRtSigprocmask st.thread how set 8
    let d := returnToUser st.actions st.env r.1 r.2
    some ({ st with thread := d.1 }, d.2)
  | .sigsuspend mask interrupted =>
    match sysRtSigsuspend st.thread mask 8 interrupted with
    | none => none
    | some r =>
      let d := returnToUser st.actions st.env r.1 r.2
      some ({ st with thread := d.1 }, d.2)
  | .sigaction sig act =>
    let a := sysRtSigaction st.actions true sig (.ok act) .skipped 8
    let d := returnToUser a.1 st.env st.thread a.2.2
    some ({ st with thread := d.1, actions := a.1 }, d.2)
  | .syscall =>
    let d := returnToUser st.actions st.env st.thread 0
    some ({ st with thread := d.1 }, d.2)
  | .sigreturn =>
    match doRtSigreturnMask st.thread with
    | none => none
    | some t =>
      let d := returnToUser st.actions st.env t 0
      some ({ st with thread := d.1 }, d.2)
  | .kill sig => some ({ st with thread := st.thread.pendSignal sig }, 0)

/-- A run of events: the final state and every event's result. -/
def runSig (st : SigState) : List SigEvent → Option (SigState × List Nat)
  | [] => some (st, [])
  | e :: es =>
    match e.apply st with
    | none => none
    | some (st', r) => (runSig st' es).map fun (st'', rs) => (st'', r :: rs)

/-- A fresh thread: nothing blocked, pending or armed, no alternate stack,
no frame, every action the default, and nothing in a delivery's way. -/
def SigState.boot : SigState := ⟨⟨0, 0, false, 0, false, []⟩, fun _ => SignalAction.dfl, DeliveryEnv.clear⟩


/-! ## Masks without SIGKILL and SIGSTOP -/

theorem and_not_unblockable_clean (m : UInt64) : (m &&& ~~~unblockable) &&& unblockable = 0 := by
  rw [UInt64.and_assoc]
  simp

theorem or_clean {a : UInt64} (b : UInt64) (ha : a &&& unblockable = 0) :
    (a ||| (b &&& ~~~unblockable)) &&& unblockable = 0 := by
  have hdist : (a ||| (b &&& ~~~unblockable)) &&& unblockable =
      (a &&& unblockable) ||| ((b &&& ~~~unblockable) &&& unblockable) :=
    UInt64.toBitVec_inj.1 (by simp [BitVec.and_or_distrib_right])
  rw [hdist, ha, and_not_unblockable_clean]
  rfl

theorem and_not_of_clean {a : UInt64} (ha : a &&& unblockable = 0) : a &&& ~~~unblockable = a := by
  apply UInt64.toBitVec_inj.1
  apply BitVec.eq_of_getLsbD_eq
  intro i hi
  have hbit := congrArg (fun w : UInt64 => w.toBitVec.getLsbD i) ha
  simp only [UInt64.toBitVec_and, BitVec.getLsbD_and, UInt64.toBitVec_zero, BitVec.getLsbD_zero] at hbit
  simp only [UInt64.toBitVec_and, UInt64.toBitVec_not, BitVec.getLsbD_and, BitVec.getLsbD_not, hi]
  cases h : a.toBitVec.getLsbD i <;> simp_all

/-- Neither SIGKILL nor SIGSTOP is blocked. -/
def UnblockableClear (s : ThreadSignals) : Prop := s.mask &&& unblockable = 0

namespace ThreadSignals

@[simp] theorem mask_setRestoreSigmask (s : ThreadSignals) (saved : UInt64) :
    (s.setRestoreSigmask saved).mask = s.mask := rfl

@[simp] theorem mask_takeRestoreSigmask (s : ThreadSignals) : s.takeRestoreSigmask.2.mask = s.mask := by
  unfold takeRestoreSigmask
  split <;> rfl

@[simp] theorem mask_pendSignal (s : ThreadSignals) (sig : Nat) : (s.pendSignal sig).mask = s.mask := by
  unfold pendSignal
  split_ifs <;> rfl

@[simp] theorem mask_takePendingSignal (s : ThreadSignals) (mask : UInt64) :
    (s.takePendingSignal mask).2.mask = s.mask := by
  simp only [takePendingSignal]
  split_ifs <;> rfl

end ThreadSignals

theorem unblockableClear_setThreadSignalMask (s : ThreadSignals) (mask : UInt64) :
    UnblockableClear (s.setThreadSignalMask mask) :=
  and_not_unblockable_clean mask

namespace UnblockableClear

variable {s : ThreadSignals}

theorem orThreadSignalMask (h : UnblockableClear s) (bits : UInt64) :
    UnblockableClear (s.orThreadSignalMask bits) :=
  or_clean bits h

theorem of_mask_eq {t : ThreadSignals} (h : UnblockableClear s) (heq : t.mask = s.mask) :
    UnblockableClear t := by
  unfold UnblockableClear
  rw [heq]
  exact h

theorem sysRtSigprocmask (h : UnblockableClear s) (how : Nat) (set : Option UInt64) (n : Nat) :
    UnblockableClear (Akuma.Signal.sysRtSigprocmask s how set n).1 := by
  unfold Akuma.Signal.sysRtSigprocmask
  by_cases hn : n ≠ 8
  · rw [if_pos hn]
    exact h
  · rw [if_neg hn]
    cases set with
    | none => exact h
    | some newMask =>
      dsimp only
      split_ifs
      all_goals first
        | exact unblockableClear_setThreadSignalMask _ _
        | exact h

theorem sysRtSigsuspend {r : ThreadSignals × Nat} {m : UInt64} {n : Nat} {i : Bool}
    (h : UnblockableClear s) (hr : Akuma.Signal.sysRtSigsuspend s m n i = some r) :
    UnblockableClear r.1 := by
  unfold Akuma.Signal.sysRtSigsuspend at hr
  split at hr
  · obtain rfl := Option.some.inj hr
    exact h
  · dsimp only at hr
    split at hr
    · -- woken by a deliverable signal: the suspend mask stays
      obtain rfl := Option.some.inj hr
      exact unblockableClear_setThreadSignalMask _ _
    · split at hr
      · -- interrupted: the armed mask goes back
        obtain rfl := Option.some.inj hr
        dsimp only
        split
        · exact unblockableClear_setThreadSignalMask _ _
        · exact (unblockableClear_setThreadSignalMask _ _).of_mask_eq (mask_takeRestoreSigmask _)
      · cases hr

theorem tryDeliverSignal (h : UnblockableClear s) (actions : Nat → SignalAction) (env : DeliveryEnv) (sig : Nat) :
    UnblockableClear (Akuma.Signal.tryDeliverSignal actions env s sig).2 := by
  unfold Akuma.Signal.tryDeliverSignal
  by_cases hr : sig = 0 ∨ sig - 1 ≥ maxSignals
  · rw [if_pos hr]
    exact h
  rw [if_neg hr]
  dsimp only
  split
  · have hframe : UnblockableClear { s.takeRestoreSigmask.2 with
        frames := s.takeRestoreSigmask.1.getD s.takeRestoreSigmask.2.mask ::
          s.takeRestoreSigmask.2.frames } := h.of_mask_eq (mask_takeRestoreSigmask s)
    -- each way out leaves the mask, or or-s the handler's bits into it
    split_ifs
    · exact h
    · exact h.of_mask_eq (mask_pendSignal s sig)
    · exact h.of_mask_eq (mask_pendSignal s sig)
    · exact h
    · exact (orThreadSignalMask hframe _).orThreadSignalMask _
    · exact orThreadSignalMask hframe _
  · exact h

theorem returnToUser (h : UnblockableClear s) (actions : Nat → SignalAction) (env : DeliveryEnv) (ret : Nat) :
    UnblockableClear (Akuma.Signal.returnToUser actions env s ret).1 := by
  unfold Akuma.Signal.returnToUser
  have ht := h.of_mask_eq (mask_takePendingSignal s s.mask)
  split
  · next s' hs =>
    rw [hs] at ht
    exact ht
  · next sig s' hs =>
    rw [hs] at ht
    dsimp only
    split
    · exact ht.of_mask_eq (mask_pendSignal s' sig)
    · exact ht.tryDeliverSignal actions env sig

theorem doRtSigreturnMask {t : ThreadSignals} (ht : Akuma.Signal.doRtSigreturnMask s = some t) :
    UnblockableClear t := by
  unfold Akuma.Signal.doRtSigreturnMask at ht
  split at ht
  · cases ht
    exact unblockableClear_setThreadSignalMask _ _
  · cases ht

end UnblockableClear

theorem SigEvent.apply_unblockableClear {st st' : SigState} {r : Nat} (e : SigEvent)
    (h : UnblockableClear st.thread) (he : e.apply st = some (st', r)) :
    UnblockableClear st'.thread := by
  cases e with
  | sigprocmask how set =>
    simp only [SigEvent.apply, Option.some.injEq, Prod.mk.injEq] at he
    rw [← he.1]
    exact (h.sysRtSigprocmask how set 8).returnToUser _ _ _
  | sigsuspend mask interrupted =>
    simp only [SigEvent.apply] at he
    split at he
    · cases he
    · next r' hr =>
      simp only [Option.some.injEq, Prod.mk.injEq] at he
      rw [← he.1]
      exact (h.sysRtSigsuspend hr).returnToUser _ _ _
  | sigaction sig act =>
    simp only [SigEvent.apply, Option.some.injEq, Prod.mk.injEq] at he
    rw [← he.1]
    exact h.returnToUser _ _ _
  | syscall =>
    simp only [SigEvent.apply, Option.some.injEq, Prod.mk.injEq] at he
    rw [← he.1]
    exact h.returnToUser _ _ _
  | sigreturn =>
    simp only [SigEvent.apply] at he
    split at he
    · cases he
    · next t ht =>
      simp only [Option.some.injEq, Prod.mk.injEq] at he
      rw [← he.1]
      exact (UnblockableClear.doRtSigreturnMask ht).returnToUser _ _ _
  | kill sig =>
    simp only [SigEvent.apply, Option.some.injEq, Prod.mk.injEq] at he
    rw [← he.1]
    exact h.of_mask_eq (mask_pendSignal _ sig)

/-- SIGKILL and SIGSTOP stay unblocked over every run: each write of the
mask goes through `set_thread_signal_mask` or `or_thread_signal_mask`, which
both drop the pair. -/
theorem runSig_unblockable_clear : ∀ {st : SigState} {es : List SigEvent} {st' : SigState}
    {rs : List Nat}, st.thread.mask &&& unblockable = 0 → runSig st es = some (st', rs) →
      st'.thread.mask &&& unblockable = 0
  | st, [], st', rs, h, hr => by
    simp only [runSig, Option.some.injEq, Prod.mk.injEq] at hr
    rw [← hr.1]
    exact h
  | st, e :: es, st', rs, h, hr => by
    simp only [runSig] at hr
    split at hr
    · cases hr
    · next st₁ r₁ he =>
      obtain ⟨⟨st₂, rs₂⟩, hrun, heq⟩ := Option.map_eq_some_iff.mp hr
      simp only [Prod.mk.injEq] at heq
      rw [← heq.1]
      exact runSig_unblockable_clear (SigEvent.apply_unblockableClear e h he) hrun

theorem runSig_unblockable_clear_on_block_all :
    (runSig SigState.boot [.sigprocmask sigBlock (some (~~~0)), .syscall,
      .sigprocmask sigSetmask (some (~~~0))]).map (fun r => r.1.thread.mask &&& unblockable) = some 0 := by
  cases hr : runSig SigState.boot [.sigprocmask sigBlock (some (~~~0)), .syscall,
      .sigprocmask sigSetmask (some (~~~0))] with
  | none =>
    have hsome : (runSig SigState.boot [.sigprocmask sigBlock (some (~~~0)), .syscall,
        .sigprocmask sigSetmask (some (~~~0))]).isSome = true := by decide +kernel
    rw [hr] at hsome
    cases hsome
  | some p => exact congrArg some (runSig_unblockable_clear (by decide) hr)

/-! ## `rt_sigsuspend` and the restore slot -/

namespace ThreadSignals

@[simp] theorem frames_orThreadSignalMask (s : ThreadSignals) (bits : UInt64) :
    (s.orThreadSignalMask bits).frames = s.frames := rfl
@[simp] theorem restorePending_orThreadSignalMask (s : ThreadSignals) (bits : UInt64) :
    (s.orThreadSignalMask bits).restorePending = s.restorePending := rfl

/-- Which signal `take_pending_signal` takes depends on the pending set and
the mask only, and it is a signal number. -/
theorem takePendingSignal_fst_congr {s t : ThreadSignals} (h : s.pending = t.pending) (mask : UInt64) :
    (s.takePendingSignal mask).1 = (t.takePendingSignal mask).1 := by
  simp only [takePendingSignal, h]
  split_ifs <;> rfl

theorem takePendingSignal_snd (s : ThreadSignals) (mask : UInt64) :
    (s.takePendingSignal mask).2 = { s with pending := (s.takePendingSignal mask).2.pending } := by
  simp only [takePendingSignal]
  split_ifs <;> rfl

theorem takePendingSignal_range {s : ThreadSignals} {mask : UInt64} {sig : Nat}
    (h : (s.takePendingSignal mask).1 = some sig) : 1 ≤ sig ∧ sig ≤ 64 := by
  simp only [takePendingSignal] at h
  -- the two `none` branches contradict `h`
  split_ifs at h with h0 hd
  obtain rfl := Option.some.inj h
  have := (WordBitmap.trailingZeros_spec hd).1
  omega

theorem takePendingSignal_ne_zero {s : ThreadSignals} {mask : UInt64} {sig : Nat}
    (h : (s.takePendingSignal mask).1 = some sig) : s.pending &&& (~~~mask ||| unblockable) ≠ 0 := by
  simp only [takePendingSignal] at h
  split_ifs at h with h0 hd
  exact hd

end ThreadSignals

/-- `rt_sigsuspend` with a signal pending that the suspend mask lets
through returns at once: the restore slot holds the caller's mask and the
suspend mask is in. -/
theorem sysRtSigsuspend_wake {s : ThreadSignals} {m : UInt64} {sig : Nat} (interrupted : Bool)
    (hsig : (s.takePendingSignal (m &&& ~~~unblockable)).1 = some sig) :
    sysRtSigsuspend s m 8 interrupted =
      some ((s.setRestoreSigmask s.mask).setThreadSignalMask (m &&& ~~~unblockable), eintr) := by
  have hwake : ((s.setRestoreSigmask s.mask).setThreadSignalMask (m &&& ~~~unblockable)).pending &&&
      (~~~(m &&& ~~~unblockable) ||| unblockable) ≠ 0 := takePendingSignal_ne_zero (s := s) hsig
  simp only [sysRtSigsuspend, ne_eq, not_true_eq_false, if_false]
  rw [if_pos hwake]

/-- The way back to user mode once `take_pending_signal` has a signal that
need not wait for an alternate stack. -/
theorem returnToUser_of_take {actions : Nat → SignalAction} {env : DeliveryEnv} {s s' : ThreadSignals}
    {sig ret : Nat} (ht : s.takePendingSignal s.mask = (some sig, s')) (hurg : sig ≠ sigurg ∨ s'.altStack = true) :
    returnToUser actions env s ret =
      ((tryDeliverSignal actions env s' sig).2, if (tryDeliverSignal actions env s' sig).1 then sig else ret) := by
  have hno : ¬(sig = sigurg ∧ (!s'.altStack) = true) := by
    rintro ⟨hs, ha⟩
    rcases hurg with h | h
    · exact h hs
    · simp [h] at ha
  simp only [returnToUser, ht, hno, if_false]

/-- A signal without a handler gets no frame and changes nothing. -/
theorem tryDeliverSignal_of_no_handler {actions : Nat → SignalAction} (env : DeliveryEnv) (s : ThreadSignals)
    {sig : Nat} (hact : (actions (sig - 1)).handler = .default ∨ (actions (sig - 1)).handler = .ignore) :
    tryDeliverSignal actions env s sig = (false, s) := by
  unfold tryDeliverSignal
  by_cases hr : sig = 0 ∨ sig - 1 ≥ maxSignals
  · rw [if_pos hr]
  rw [if_neg hr]
  dsimp only
  rcases hact with h | h <;> rw [h]

/-- What lets a handler's frame be built: a restorer at hand, a thread
not already on its alternate stack, and pages for the frame. -/
structure DeliveryEnv.Clears (env : DeliveryEnv) (s : ThreadSignals) : Prop where
  restorer : env.restorer = true
  offAltStack : s.altStack = false ∨ env.onAltStack = false
  framePages : env.framePages = true

/-- A handler's frame saves the armed restore-sigmask and disarms it. -/
theorem tryDeliverSignal_of_handler {actions : Nat → SignalAction} {env : DeliveryEnv} {s : ThreadSignals}
    {sig addr : Nat} {flags amask : UInt64} (hrange : 1 ≤ sig ∧ sig ≤ 64)
    (hact : actions (sig - 1) = ⟨.userFn addr, flags, amask⟩) (henv : env.Clears s)
    (hstack : flags &&& saOnstack = 0 ∨ s.altStack = true) (harmed : s.restorePending = true) :
    (tryDeliverSignal actions env s sig).1 = true ∧
      (tryDeliverSignal actions env s sig).2.frames = s.restoreMask :: s.frames ∧
      (tryDeliverSignal actions env s sig).2.restorePending = false := by
  have hin : ¬(sig = 0 ∨ sig - 1 ≥ maxSignals) := by
    simp only [maxSignals]
    omega
  have hon : ¬(flags &&& saOnstack ≠ 0 ∧ (!s.altStack) = true) := by
    rintro ⟨hf, ha⟩
    rcases hstack with h | h
    · exact hf h
    · simp [h] at ha
  have hoff : ¬(s.altStack = true ∧ env.onAltStack = true) := by
    rintro ⟨ha, ho⟩
    rcases henv.offAltStack with h | h
    · simp [h] at ha
    · simp [h] at ho
  simp only [tryDeliverSignal, hin, if_false, hact, henv.restorer, hon, hoff, henv.framePages,
    Bool.not_true, Bool.false_eq_true, takeRestoreSigmask, harmed, if_true, Option.getD_some]
  split_ifs <;> simp

/-- The first step of the way back from an `rt_sigsuspend` that a pending
signal `sig` ends: the suspend mask is in, the caller's mask is armed, and
`take_pending_signal` takes `sig`. -/
theorem sigsuspend_take {s : ThreadSignals} {m : UInt64} {sig : Nat}
    (hsig : (s.takePendingSignal (m &&& ~~~unblockable)).1 = some sig) :
    ∃ s₂ : ThreadSignals,
      ((s.setRestoreSigmask s.mask).setThreadSignalMask (m &&& ~~~unblockable)).takePendingSignal
        ((s.setRestoreSigmask s.mask).setThreadSignalMask (m &&& ~~~unblockable)).mask = (some sig, s₂) ∧
      s₂.mask = m &&& ~~~unblockable ∧ s₂.restorePending = true ∧ s₂.restoreMask = s.mask ∧
      s₂.frames = s.frames ∧ s₂.altStack = s.altStack := by
  set s₁ := (s.setRestoreSigmask s.mask).setThreadSignalMask (m &&& ~~~unblockable)
  have hmask₁ : s₁.mask = m &&& ~~~unblockable := and_not_of_clean (and_not_unblockable_clean m)
  have htake : (s₁.takePendingSignal s₁.mask).1 = some sig := by
    rw [hmask₁, takePendingSignal_fst_congr (s := s₁) (t := s) rfl]
    exact hsig
  refine ⟨(s₁.takePendingSignal s₁.mask).2, Prod.ext htake rfl, ?_⟩
  rw [takePendingSignal_snd]
  exact ⟨hmask₁, rfl, rfl, rfl, rfl⟩

/-- The half of `rt_sigsuspend` that works: when the signal that ends the
wait has a handler, its frame saves the caller's mask and disarms the
restore slot, so the handler's `rt_sigreturn` puts the caller's mask back. -/
theorem sigsuspend_handler_restores_mask {st : SigState} {m : UInt64} {sig addr : Nat}
    {flags amask : UInt64} (interrupted : Bool) (hclean : st.thread.mask &&& unblockable = 0)
    (hsig : (st.thread.takePendingSignal (m &&& ~~~unblockable)).1 = some sig)
    (hact : st.actions (sig - 1) = ⟨.userFn addr, flags, amask⟩) (henv : st.env.Clears st.thread)
    (hstack : flags &&& saOnstack = 0 ∨ st.thread.altStack = true)
    (hurg : sig ≠ sigurg ∨ st.thread.altStack = true) :
    ∃ st', (SigEvent.sigsuspend m interrupted).apply st = some (st', sig) ∧
      st'.thread.restorePending = false ∧ st'.thread.frames = st.thread.mask :: st.thread.frames ∧
      (doRtSigreturnMask st'.thread).map (·.mask) = some st.thread.mask := by
  obtain ⟨s₂, hs₂, -, harmed, hsaved, hframes, halt⟩ := sigsuspend_take hsig
  -- the thread the delivery sees differs from `st.thread` in its mask and slots only
  have henv₂ : st.env.Clears s₂ := ⟨henv.restorer, by rw [halt]; exact henv.offAltStack, henv.framePages⟩
  obtain ⟨hdone, hpush, hdisarmed⟩ := tryDeliverSignal_of_handler (takePendingSignal_range hsig) hact henv₂
    (by rw [halt]; exact hstack) harmed
  refine ⟨{ st with thread := (tryDeliverSignal st.actions st.env s₂ sig).2 }, ?_, hdisarmed, ?_, ?_⟩
  · simp only [SigEvent.apply, sysRtSigsuspend_wake interrupted hsig]
    rw [returnToUser_of_take hs₂ (by rw [halt]; exact hurg), if_pos hdone]
  · rw [hpush, hsaved, hframes]
  · simp only [doRtSigreturnMask, hpush, hsaved, Option.map_some, setThreadSignalMask]
    rw [and_not_of_clean hclean]

theorem sigsuspend_handler_restores_mask_on_usr1 :
    ∃ st', (SigEvent.sigsuspend 0 false).apply
        ⟨⟨sigBit 12, 0, false, sigBit 10, false, []⟩,
          Function.update (fun _ => SignalAction.dfl) 9 ⟨.userFn 0x400000, 0, 0⟩, DeliveryEnv.clear⟩ =
          some (st', 10) ∧
      st'.thread.restorePending = false ∧ st'.thread.frames = [sigBit 12] ∧
      (doRtSigreturnMask st'.thread).map (·.mask) = some (sigBit 12) :=
  @sigsuspend_handler_restores_mask _ _ 10 0x400000 0 0 false
    (by decide) (by decide) (by decide) ⟨rfl, .inl rfl, rfl⟩ (.inl (by decide)) (.inl (by decide))

/-- The half that does not: when the signal that ends the wait has no
handler (`SIG_DFL` or `SIG_IGN`), nothing consumes the restore slot. The
thread goes back to user mode with the suspend mask in and the caller's
mask still armed, to be written into whichever frame comes next. -/
theorem sigsuspend_unhandled_wakeup {st : SigState} {m : UInt64} {sig : Nat} (interrupted : Bool)
    (hsig : (st.thread.takePendingSignal (m &&& ~~~unblockable)).1 = some sig)
    (hact : (st.actions (sig - 1)).handler = .default ∨ (st.actions (sig - 1)).handler = .ignore)
    (hurg : sig ≠ sigurg ∨ st.thread.altStack = true) :
    ∃ st', (SigEvent.sigsuspend m interrupted).apply st = some (st', eintr) ∧
      st'.thread.mask = m &&& ~~~unblockable ∧ st'.thread.restorePending = true ∧
      st'.thread.restoreMask = st.thread.mask := by
  obtain ⟨s₂, hs₂, hmask, harmed, hsaved, -, halt⟩ := sigsuspend_take hsig
  refine ⟨{ st with thread := s₂ }, ?_, hmask, harmed, hsaved⟩
  simp only [SigEvent.apply, sysRtSigsuspend_wake interrupted hsig]
  rw [returnToUser_of_take hs₂ (by rw [halt]; exact hurg), tryDeliverSignal_of_no_handler st.env s₂ hact]
  rfl

theorem sigsuspend_unhandled_wakeup_on_ignored_usr1 :
    ∃ st', (SigEvent.sigsuspend 0 false).apply
        ⟨⟨sigBit 12, 0, false, sigBit 10, false, []⟩,
          Function.update (fun _ => SignalAction.dfl) 9 ⟨.ignore, 0, 0⟩, DeliveryEnv.clear⟩ = some (st', eintr) ∧
      st'.thread.mask = 0 &&& ~~~unblockable ∧ st'.thread.restorePending = true ∧
      st'.thread.restoreMask = sigBit 12 :=
  @sigsuspend_unhandled_wakeup _ _ 10 false (by decide) (.inr (by decide)) (.inl (by decide))

/-- A thread blocks SIGUSR2 and ignores SIGUSR1; another thread's `kill`
pends SIGUSR1, and the thread calls `rt_sigsuspend` with an empty mask. The
call returns `EINTR` and the way back drops SIGUSR1, which has no handler:
the thread is in user mode with an empty mask, not its SIGUSR2 mask, and
the restore slot is still armed. When the thread has later set its mask to
SIGINT and a SIGTERM handler runs, that frame saves the stale SIGUSR2 mask,
and the handler's `rt_sigreturn` installs SIGUSR2 instead of SIGINT. -/
theorem sigsuspend_ignored_signal_leaves_mask_armed :
    (runSig SigState.boot [.sigaction 10 ⟨.ignore, 0, 0⟩, .sigprocmask sigSetmask (some (sigBit 12)),
        .kill 10, .sigsuspend 0 false]).map
        (fun r => (r.2, r.1.thread.mask, r.1.thread.restorePending)) =
      some ([0, 0, 0, eintr], 0, true) ∧
    (runSig SigState.boot [.sigaction 10 ⟨.ignore, 0, 0⟩, .sigprocmask sigSetmask (some (sigBit 12)),
        .kill 10, .sigsuspend 0 false, .sigprocmask sigSetmask (some (sigBit 2)),
        .sigaction 15 ⟨.userFn 0x400000, 0, 0⟩, .kill 15, .syscall, .sigreturn]).map
        (fun r => (r.2, r.1.thread.mask, r.1.thread.restorePending)) =
      some ([0, 0, 0, eintr, 0, 0, 0, 15, 0], sigBit 12, false) := by
  constructor <;> decide +kernel

end Akuma.Signal
