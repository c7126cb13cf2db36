import Akuma.Syscall.Mmap

/-!
# Futexes

`sys_futex` of `syscall/sync.rs` and the global waiter table
`FUTEX_WAITERS`, as a system of threads. The table maps a key
`(tgid, uaddr)` to the tids queued there; an absent key is an empty queue,
as the code removes a key when its queue empties. Each critical section
under the table's lock is one atomic step. A thread in `FUTEX_WAIT` enqueues
its tid and blocks. A timeout is copied in between, after the lock is
released; a fault there takes the tid out of the queue again and returns
`EFAULT`. `schedule_blocking` may return at any time (after a wake, after
the deadline, or spuriously), and the thread then checks under the lock
whether its tid is still queued under the key it waited on. Not queued
there means "woken", and the call returns 0.

`FUTEX_REQUEUE` moves tids to another key without telling their threads.
A requeued thread that comes back from `schedule_blocking` before a wake
finds its tid gone from its own key, returns 0, and leaves the tid queued
under the other key; a later wake there counts a thread that is not
waiting. Without a requeue the table keeps its meaning: every queued tid
belongs to a thread blocked in `FUTEX_WAIT` on that very key.

The environment: which user pointers validate (`validate_user_ptr`), which
copies from user memory fault, the futex words in each process's memory,
pending signals and the clock. The
futex word is read under the lock, as the code does.
-/

namespace Akuma.Syscall

/-! ## Constants -/

/-- `EINTR`. -/
def eintr : Nat := negErrno 4
/-- `EAGAIN`. -/
def eagain : Nat := negErrno 11
/-- `EFAULT`. -/
def efault : Nat := negErrno 14
/-- `ENOSYS`. -/
def enosys : Nat := negErrno 38
/-- `ETIMEDOUT`. -/
def etimedout : Nat := negErrno 110

/-- `FUTEX_WAIT`. -/
def futexWait : Nat := 0
/-- `FUTEX_WAKE`. -/
def futexWake : Nat := 1
/-- `FUTEX_REQUEUE`. -/
def futexRequeue : Nat := 3
/-- `FUTEX_CMP_REQUEUE`. -/
def futexCmpRequeue : Nat := 4
/-- `FUTEX_WAKE_OP`. -/
def futexWakeOp : Nat := 5
/-- `FUTEX_WAIT_BITSET`. -/
def futexWaitBitset : Nat := 9
/-- `FUTEX_WAKE_BITSET`. -/
def futexWakeBitset : Nat := 10
/-- `FUTEX_PRIVATE_FLAG`. -/
def futexPrivateFlag : Nat := 128
/-- `FUTEX_CLOCK_REALTIME`. -/
def futexClockRealtime : Nat := 256

/-- `op & !(FUTEX_PRIVATE_FLAG | FUTEX_CLOCK_REALTIME)` on the bits of the
`i32`. -/
def futexCmd (op : Nat) : Nat := op &&& (2 ^ 32 - 1 - (futexPrivateFlag ||| futexClockRealtime))

/-! ## The waiter table and the threads -/

/-- A key of `FUTEX_WAITERS`: the tgid of a private futex (0 for a shared
one) and the user address. -/
structure FutexKey where
  tgid : Nat
  uaddr : Nat
  deriving DecidableEq, Repr

/-- Where a thread is in a `FUTEX_WAIT` call. -/
inductive WaitPhase where
  /-- Not in `FUTEX_WAIT`. -/
  | idle
  /-- Queued under `key`, copying the timeout at `timeoutPtr` before it
  blocks. -/
  | copying (key : FutexKey) (pid uaddr val timeoutPtr : Nat)
  /-- In `schedule_blocking`, after it queued its tid under `key`. -/
  | blocked (key : FutexKey) (pid uaddr val : Nat) (timed : Bool)
  /-- Back from `schedule_blocking`, past the membership check: `woken` when
  its tid was no longer queued under `key`. -/
  | checked (key : FutexKey) (pid uaddr val : Nat) (timed woken : Bool)
  deriving DecidableEq, Repr

/-- A thread in `FUTEX_WAIT` with its tid queued under `key`: copying its
timeout, or blocked. -/
def WaitPhase.QueuedOn (key : FutexKey) : WaitPhase → Prop
  | .copying k _ _ _ _ => k = key
  | .blocked k _ _ _ _ => k = key
  | .idle | .checked .. => False

/-- A thread is queued on one key at most. -/
theorem WaitPhase.QueuedOn.eq {p : WaitPhase} {k k' : FutexKey} (h : p.QueuedOn k) (h' : p.QueuedOn k') :
    k = k' := by
  cases p with
  | copying key _ _ _ _ => exact h.symm.trans h'
  | blocked key _ _ _ _ => exact h.symm.trans h'
  | idle => exact h.elim
  | checked _ _ _ _ _ _ => exact h.elim

/-- The waiter table, the futex words of each process's memory, and where
each thread is. -/
structure FutexState where
  waiters : FutexKey → List Nat
  word : Nat → Nat → Nat
  phase : Nat → WaitPhase

/-- `validate_user_ptr(ptr, len)` in the memory of a process, and whether
`copy_from_user_safe` of such a range faults. -/
structure FutexEnv where
  validUserPtr : Nat → Nat → Nat → Bool
  copyFaults : Nat → Nat → Nat → Bool

namespace FutexState

variable (s : FutexState)

/-- The queue under `key` replaced by `q` (an empty one is the key removed). -/
def setQueue (key : FutexKey) (q : List Nat) : FutexState :=
  { s with waiters := Function.update s.waiters key q }

/-- Thread `tid` moved to `p`. -/
def setPhase (tid : Nat) (p : WaitPhase) : FutexState :=
  { s with phase := Function.update s.phase tid p }

/-- `futex_do_wake`: the first `min(max_wake, len)` tids leave the queue;
their number is returned. -/
def futexDoWake (key : FutexKey) (maxWake : Nat) : FutexState × Nat :=
  let queue := s.waiters key
  let count := min maxWake queue.length
  (s.setQueue key (queue.drop count), count)

/-- The critical section of `FUTEX_REQUEUE` and `FUTEX_CMP_REQUEUE`: up to
`val` tids of `key1` are woken, up to `max_requeue` of the rest move to the
end of `key2`'s queue (none when `uaddr2` is 0); woken plus moved is
returned. -/
def requeue (key1 key2 : FutexKey) (uaddr2 val maxRequeue : Nat) : FutexState × Nat :=
  let queue := s.waiters key1
  let wakeCount := min val queue.length
  let remaining := queue.drop wakeCount
  let requeueCount := if uaddr2 ≠ 0 then min maxRequeue remaining.length else 0
  let toRequeue := remaining.take requeueCount
  let s := s.setQueue key1 (remaining.drop requeueCount)
  let s := if toRequeue ≠ [] ∧ uaddr2 ≠ 0 then s.setQueue key2 (s.waiters key2 ++ toRequeue) else s
  (s, wakeCount + requeueCount)

/-- `waiters.entry(key).or_default().push(tid)`, and the thread moves on to
`p`. -/
def enqueue (tid : Nat) (key : FutexKey) (p : WaitPhase) : FutexState :=
  (s.setQueue key (s.waiters key ++ [tid])).setPhase tid p

end FutexState

section Calls

variable (env : FutexEnv)

/-- `sys_futex(uaddr, op, val, timeout_ptr, uaddr2, val3)` by thread `tid` of
process `pid`, up to its first return or block: the state and the value
returned, or `none` when the thread blocked in `FUTEX_WAIT`. `op` is the
bits of the `i32`. -/
def sysFutex (s : FutexState) (tid pid uaddr op val timeoutPtr uaddr2 val3 : Nat) :
    FutexState × Option Nat :=
  let isPrivate := op &&& futexPrivateFlag ≠ 0
  let cmd := futexCmd op
  if uaddr = 0 ∨ uaddr &&& 3 ≠ 0 then (s, some einval) else
  if !env.validUserPtr pid uaddr 4 then
    -- no waiters on an unmapped address
    if cmd = futexWake ∨ cmd = futexWakeBitset ∨ cmd = futexWakeOp then (s, some 0)
    else if cmd = futexWait ∨ cmd = futexWaitBitset then (s, some eagain)
    else (s, some efault)
  else
  let tgid := if isPrivate then pid else 0
  let key : FutexKey := ⟨tgid, uaddr⟩
  if cmd = futexWait ∨ cmd = futexWaitBitset then
    if cmd = futexWaitBitset ∧ val3 = 0 then (s, some einval) else
    -- the value is read inside the lock, then the tid is queued
    if env.copyFaults pid uaddr 4 then (s, some efault) else
    if s.word pid uaddr ≠ val then (s, some eagain) else
    -- a timeout is copied once the lock is released
    if timeoutPtr ≠ 0 ∧ env.validUserPtr pid timeoutPtr 16 then
      (s.enqueue tid key (.copying key pid uaddr val timeoutPtr), none)
    else (s.enqueue tid key (.blocked key pid uaddr val false), none)
  else if cmd = futexWake ∨ cmd = futexWakeBitset then
    let (s, n) := s.futexDoWake key val
    (s, some n)
  else if cmd = futexRequeue then
    if uaddr2 ≠ 0 ∧ !env.validUserPtr pid uaddr2 4 then (s, some efault) else
    let (s, n) := s.requeue key ⟨tgid, uaddr2⟩ uaddr2 val (timeoutPtr % 2 ^ 32)
    (s, some n)
  else if cmd = futexCmpRequeue then
    if s.word pid uaddr ≠ val3 then (s, some eagain) else
    if uaddr2 ≠ 0 ∧ !env.validUserPtr pid uaddr2 4 then (s, some efault) else
    let (s, n) := s.requeue key ⟨tgid, uaddr2⟩ uaddr2 val (timeoutPtr % 2 ^ 32)
    (s, some n)
  else if cmd = futexWakeOp then
    let (s, n) := s.futexDoWake key val
    (s, some n)
  else (s, some enosys)

/-- The copy of the timeout: a fault takes the tid out of the queue again
under the lock and returns `EFAULT`; otherwise the thread blocks with a
deadline. -/
def copyTimeout (s : FutexState) (tid : Nat) (key : FutexKey) (pid uaddr val timeoutPtr : Nat) :
    FutexState × Option Nat :=
  if env.copyFaults pid timeoutPtr 16 then
    ((s.setQueue key ((s.waiters key).filter (· ≠ tid))).setPhase tid .idle, some efault)
  else (s.setPhase tid (.blocked key pid uaddr val true), none)

/-- The membership check after `schedule_blocking` returns: a tid still
queued under the key is removed (the wake-up was spurious); one no longer
there was woken. -/
def resumeCheck (s : FutexState) (tid : Nat) (key : FutexKey) (pid uaddr val : Nat) (timed : Bool) :
    FutexState :=
  let inQueue := tid ∈ s.waiters key
  let s := if inQueue then s.setQueue key ((s.waiters key).filter (· ≠ tid)) else s
  s.setPhase tid (.checked key pid uaddr val timed !inQueue)

/-- The rest of the wait loop's round: a pending signal returns `EINTR`, a
wake returns 0, an expired deadline `ETIMEDOUT`; otherwise the value is
read again under the lock and the tid queued again. -/
def waitFinish (s : FutexState) (tid : Nat) (key : FutexKey) (pid uaddr val : Nat)
    (timed woken signalled expired : Bool) : FutexState × Option Nat :=
  if signalled then (s.setPhase tid .idle, some eintr)
  else if woken then (s.setPhase tid .idle, some 0)
  else if timed ∧ expired then (s.setPhase tid .idle, some etimedout)
  else if s.word pid uaddr ≠ val then (s.setPhase tid .idle, some eagain)
  else (s.enqueue tid key (.blocked key pid uaddr val timed), none)

/-- What can happen next: a thread's call, its copy of the timeout, its
return from `schedule_blocking` and membership check, the rest of that
round (with whether a signal is pending and the deadline has passed), and a
store of a futex word by user code. -/
inductive Action where
  | call (tid pid uaddr op val timeoutPtr uaddr2 val3 : Nat)
  | copyTimeout (tid : Nat)
  | resume (tid : Nat)
  | finish (tid : Nat) (signalled expired : Bool)
  | store (pid uaddr v : Nat)
  deriving DecidableEq, Repr

/-- One step: `none` when the action is not enabled (a call by a thread
already in `FUTEX_WAIT`, a return of a thread that is not blocked). -/
def step (s : FutexState) : Action → Option (FutexState × Option Nat)
  | .call tid pid uaddr op val timeoutPtr uaddr2 val3 =>
    if s.phase tid = .idle then some (sysFutex env s tid pid uaddr op val timeoutPtr uaddr2 val3)
    else none
  | .copyTimeout tid =>
    match s.phase tid with
    | .copying key pid uaddr val timeoutPtr => some (copyTimeout env s tid key pid uaddr val timeoutPtr)
    | _ => none
  | .resume tid =>
    match s.phase tid with
    | .blocked key pid uaddr val timed => some (resumeCheck s tid key pid uaddr val timed, none)
    | _ => none
  | .finish tid signalled expired =>
    match s.phase tid with
    | .checked key pid uaddr val timed woken =>
      some (waitFinish s tid key pid uaddr val timed woken signalled expired)
    | _ => none
  | .store pid uaddr v => some ({ s with word := Function.update s.word pid (Function.update (s.word pid) uaddr v) }, none)

/-- A run: the final state and the value each step returned. -/
def run (s : FutexState) : List Action → Option (FutexState × List (Option Nat))
  | [] => some (s, [])
  | a :: as => do
    let (s, r) ← step env s a
    let (s, rs) ← run s as
    pure (s, r :: rs)

/-- A call of `FUTEX_REQUEUE` or `FUTEX_CMP_REQUEUE`. -/
def Action.isRequeue : Action → Bool
  | .call _ _ _ op _ _ _ _ => futexCmd op = futexRequeue ∨ futexCmd op = futexCmpRequeue
  | _ => false

end Calls

/-! ## Queued tids belong to blocked threads -/

namespace FutexState

variable {s : FutexState}

@[simp] theorem setQueue_waiters (key k : FutexKey) (q : List Nat) :
    (s.setQueue key q).waiters k = if k = key then q else s.waiters k := by
  simp [setQueue, Function.update_apply]

@[simp] theorem setQueue_phase (key : FutexKey) (q : List Nat) : (s.setQueue key q).phase = s.phase := rfl

@[simp] theorem setQueue_word (key : FutexKey) (q : List Nat) : (s.setQueue key q).word = s.word := rfl

@[simp] theorem setPhase_waiters (tid : Nat) (p : WaitPhase) : (s.setPhase tid p).waiters = s.waiters := rfl

@[simp] theorem setPhase_word (tid : Nat) (p : WaitPhase) : (s.setPhase tid p).word = s.word := rfl

@[simp] theorem setPhase_phase (tid t : Nat) (p : WaitPhase) :
    (s.setPhase tid p).phase t = if t = tid then p else s.phase t := by
  simp [setPhase, Function.update_apply]

/-- Every queued tid is the tid of a thread in `FUTEX_WAIT` on that key,
and a queue holds a tid once. -/
structure QueueInv (s : FutexState) : Prop where
  queued_waiting : ∀ key tid, tid ∈ s.waiters key → (s.phase tid).QueuedOn key
  nodup : ∀ key, (s.waiters key).Nodup

namespace QueueInv

/-- A thread that is not in `FUTEX_WAIT` has its tid in no queue. -/
theorem not_mem (h : s.QueueInv) {tid : Nat} (hp : ∀ key, ¬ (s.phase tid).QueuedOn key) (key : FutexKey) :
    tid ∉ s.waiters key :=
  fun hm => hp key (h.queued_waiting key tid hm)

/-- A thread queued on `key` has its tid under no other key. -/
theorem not_mem_of_ne (h : s.QueueInv) {tid : Nat} {key k : FutexKey} (hp : (s.phase tid).QueuedOn key)
    (hk : k ≠ key) : tid ∉ s.waiters k :=
  fun hm => hk ((h.queued_waiting k tid hm).eq hp)

/-- Taking tids out of one queue keeps the invariant. -/
theorem shrink (h : s.QueueInv) {key : FutexKey} {q : List Nat} (hq : q.Sublist (s.waiters key)) :
    (s.setQueue key q).QueueInv := by
  constructor
  · intro k tid hm
    simp only [setQueue_waiters, setQueue_phase] at hm ⊢
    split at hm
    · subst k
      exact h.queued_waiting key tid (hq.subset hm)
    · exact h.queued_waiting k tid hm
  · intro k
    simp only [setQueue_waiters]
    split
    · subst k
      exact (h.nodup key).sublist hq
    · exact h.nodup k

theorem futexDoWake (h : s.QueueInv) (key : FutexKey) (maxWake : Nat) :
    (s.futexDoWake key maxWake).1.QueueInv :=
  h.shrink (List.drop_sublist _ _)

/-- A thread in no queue that queues itself on `key` keeps the invariant. -/
theorem enqueue (h : s.QueueInv) {tid : Nat} (hnot : ∀ k, tid ∉ s.waiters k) (key : FutexKey)
    {p : WaitPhase} (hp : p.QueuedOn key) : (s.enqueue tid key p).QueueInv := by
  constructor
  · intro k t hm
    simp only [FutexState.enqueue, setPhase_waiters, setQueue_waiters, setPhase_phase,
      setQueue_phase] at hm ⊢
    by_cases ht : t = tid
    · subst t
      split at hm
      · subst k
        simpa using hp
      · exact absurd hm (hnot k)
    · simp only [ht, if_false]
      split at hm
      · subst k
        rcases List.mem_append.mp hm with hm | hm
        · exact h.queued_waiting _ t hm
        · simp at hm
          exact absurd hm ht
      · exact h.queued_waiting k t hm
  · intro k
    simp only [FutexState.enqueue, setPhase_waiters, setQueue_waiters]
    split
    · subst k
      exact (h.nodup key).append (List.nodup_singleton tid)
        (fun a ha hb => by simp at hb; subst hb; exact hnot key ha)
    · exact h.nodup k

/-- Moving a thread in no queue between phases keeps the invariant. -/
theorem setPhase (h : s.QueueInv) {tid : Nat} (hnot : ∀ k, tid ∉ s.waiters k) (p : WaitPhase) :
    (s.setPhase tid p).QueueInv := by
  constructor
  · intro k t hm
    simp only [setPhase_waiters, setPhase_phase] at hm ⊢
    have ht : t ≠ tid := fun ht => hnot k (ht ▸ hm)
    simp only [ht, if_false]
    exact h.queued_waiting k t hm
  · exact h.nodup

/-- Moving a thread queued on `key` to another phase queued on `key` keeps
the invariant. -/
theorem setPhase_of_queuedOn (h : s.QueueInv) {tid : Nat} {key : FutexKey} (hq : (s.phase tid).QueuedOn key)
    {p : WaitPhase} (hp : p.QueuedOn key) : (s.setPhase tid p).QueueInv := by
  constructor
  · intro k t hm
    simp only [setPhase_waiters, setPhase_phase] at hm ⊢
    split
    · subst t
      -- the thread's tid is queued under its own key alone
      rw [(h.queued_waiting k tid hm).eq hq]
      exact hp
    · exact h.queued_waiting k t hm
  · exact h.nodup

/-- A thread queued on `key` that takes its tid out of that queue and moves
to a phase outside the queues keeps the invariant: its tid is in no other
queue. -/
theorem dequeue (h : s.QueueInv) {tid : Nat} {key : FutexKey} (hq : (s.phase tid).QueuedOn key) (p : WaitPhase) :
    ((s.setQueue key ((s.waiters key).filter (· ≠ tid))).setPhase tid p).QueueInv := by
  have h' : (s.setQueue key ((s.waiters key).filter (· ≠ tid))).QueueInv := h.shrink List.filter_sublist
  refine h'.setPhase (fun k hm => ?_) p
  simp only [setQueue_waiters] at hm
  split at hm
  · subst k
    simp at hm
  · exact h.not_mem_of_ne hq ‹_› hm

end QueueInv

end FutexState

open FutexState

section Steps

variable {env : FutexEnv} {s : FutexState}

/-- A call other than a requeue, by a thread not in `FUTEX_WAIT`, keeps the
invariant: it queues its own tid, wakes some tids, or changes nothing. -/
theorem FutexState.QueueInv.sysFutex (h : s.QueueInv) {tid pid uaddr op val timeoutPtr uaddr2 val3 : Nat}
    (hidle : s.phase tid = .idle) (hreq : futexCmd op ≠ futexRequeue ∧ futexCmd op ≠ futexCmpRequeue) :
    (sysFutex env s tid pid uaddr op val timeoutPtr uaddr2 val3).1.QueueInv := by
  have hnot : ∀ k, tid ∉ s.waiters k := h.not_mem fun key hq => by rw [hidle] at hq; exact hq
  unfold Akuma.Syscall.sysFutex
  dsimp only
  -- the checks of `uaddr` return at once
  by_cases hbad : uaddr = 0 ∨ uaddr &&& 3 ≠ 0
  · rw [if_pos hbad]
    exact h
  rw [if_neg hbad]
  by_cases hinvalid : (!env.validUserPtr pid uaddr 4) = true
  · rw [if_pos hinvalid]
    split_ifs <;> exact h
  rw [if_neg hinvalid]
  -- a wait queues the caller's own tid
  by_cases hwait : futexCmd op = futexWait ∨ futexCmd op = futexWaitBitset
  · rw [if_pos hwait]
    split_ifs <;> first | exact h | exact h.enqueue hnot _ rfl
  rw [if_neg hwait]
  -- a wake takes tids out of one queue
  by_cases hwake : futexCmd op = futexWake ∨ futexCmd op = futexWakeBitset
  · rw [if_pos hwake]
    exact h.futexDoWake _ _
  rw [if_neg hwake, if_neg hreq.1, if_neg hreq.2]
  split_ifs <;> first | exact h | exact h.futexDoWake _ _

theorem FutexState.QueueInv.copyTimeout (h : s.QueueInv) {tid : Nat} {key : FutexKey}
    {pid uaddr val timeoutPtr : Nat} (hp : s.phase tid = .copying key pid uaddr val timeoutPtr) :
    (copyTimeout env s tid key pid uaddr val timeoutPtr).1.QueueInv := by
  have hq : (s.phase tid).QueuedOn key := by rw [hp]; rfl
  unfold Akuma.Syscall.copyTimeout
  split
  · -- a fault: the tid leaves its own queue
    exact h.dequeue hq _
  · exact h.setPhase_of_queuedOn hq rfl

theorem FutexState.QueueInv.resumeCheck (h : s.QueueInv) {tid : Nat} {key : FutexKey} {pid uaddr val : Nat}
    {timed : Bool} (hp : s.phase tid = .blocked key pid uaddr val timed) :
    (resumeCheck s tid key pid uaddr val timed).QueueInv := by
  have hq : (s.phase tid).QueuedOn key := by rw [hp]; rfl
  unfold Akuma.Syscall.resumeCheck
  dsimp only
  split
  · -- a spurious return: the tid leaves its own queue
    exact h.dequeue hq _
  · rename_i hin
    refine h.setPhase (fun k hm => ?_) _
    by_cases hk : k = key
    · subst k
      exact hin hm
    · exact h.not_mem_of_ne hq hk hm

theorem FutexState.QueueInv.waitFinish (h : s.QueueInv) {tid : Nat} {key : FutexKey} {pid uaddr val : Nat}
    {timed woken : Bool} (hp : s.phase tid = .checked key pid uaddr val timed woken)
    (signalled expired : Bool) :
    (waitFinish s tid key pid uaddr val timed woken signalled expired).1.QueueInv := by
  have hnot : ∀ k, tid ∉ s.waiters k := h.not_mem fun key hq => by rw [hp] at hq; exact hq
  unfold Akuma.Syscall.waitFinish
  split_ifs
  all_goals first
    | exact h.setPhase hnot _
    | exact h.enqueue hnot _ rfl

/-- Every step but a requeue keeps the invariant. -/
theorem FutexState.QueueInv.step (h : s.QueueInv) {a : Action} (ha : a.isRequeue = false)
    {s' : FutexState} {r : Option Nat} (hs : step env s a = some (s', r)) : s'.QueueInv := by
  cases a with
  | call tid pid uaddr op val timeoutPtr uaddr2 val3 =>
    simp only [Akuma.Syscall.step] at hs
    split_ifs at hs with hidle
    have hs' := congrArg Prod.fst (Option.some.inj hs)
    dsimp only at hs'
    rw [← hs']
    simp only [Action.isRequeue, decide_eq_false_iff_not, not_or] at ha
    exact h.sysFutex hidle ha
  | copyTimeout tid =>
    simp only [Akuma.Syscall.step] at hs
    split at hs
    · rename_i hp
      have hs' := congrArg Prod.fst (Option.some.inj hs)
      dsimp only at hs'
      rw [← hs']
      exact h.copyTimeout hp
    · cases hs
  | resume tid =>
    simp only [Akuma.Syscall.step] at hs
    split at hs
    · cases hs
      exact h.resumeCheck ‹_›
    · cases hs
  | finish tid signalled expired =>
    simp only [Akuma.Syscall.step] at hs
    split at hs
    · rename_i hp
      have hs' := congrArg Prod.fst (Option.some.inj hs)
      dsimp only at hs'
      rw [← hs']
      exact h.waitFinish hp _ _
    · cases hs
  | store pid uaddr v =>
    simp only [Akuma.Syscall.step, Option.some.injEq, Prod.mk.injEq] at hs
    obtain ⟨rfl, -⟩ := hs
    exact ⟨h.queued_waiting, h.nodup⟩

/-- Every run without a requeue keeps the invariant, by induction on the run. -/
theorem FutexState.QueueInv.run (h : s.QueueInv) {trace : List Action}
    (htrace : ∀ a ∈ trace, a.isRequeue = false) {s' : FutexState} {rs : List (Option Nat)}
    (hrun : Akuma.Syscall.run env s trace = some (s', rs)) : s'.QueueInv := by
  induction trace generalizing s rs with
  | nil =>
    simp only [Akuma.Syscall.run, Option.some.injEq, Prod.mk.injEq] at hrun
    obtain ⟨rfl, -⟩ := hrun
    exact h
  | cons a trace ih =>
    simp only [Akuma.Syscall.run] at hrun
    obtain ⟨⟨s1, r1⟩, hs1, hrun⟩ := Option.bind_eq_some_iff.mp hrun
    obtain ⟨⟨s2, rs2⟩, hs2, hpure⟩ := Option.bind_eq_some_iff.mp hrun
    simp only [Option.pure_def, Option.some.injEq, Prod.mk.injEq] at hpure
    obtain ⟨rfl, -⟩ := hpure
    exact ih (h.step (htrace a (by simp)) hs1) (fun b hb => htrace b (by simp [hb])) hs2

/-- A tid is queued under one key at most: its thread waits on one. -/
theorem FutexState.QueueInv.key_unique (h : s.QueueInv) {k1 k2 : FutexKey} {tid : Nat}
    (h1 : tid ∈ s.waiters k1) (h2 : tid ∈ s.waiters k2) : k1 = k2 :=
  (h.queued_waiting k1 tid h1).eq (h.queued_waiting k2 tid h2)

end Steps

/-- From an empty waiter table, every run of `sys_futex` calls, copies of
timeouts, returns from `schedule_blocking`, signals, deadlines and stores
without a requeue keeps the table meaningful: every queued tid is that of a
thread in `FUTEX_WAIT` on exactly that key, it is queued once, and under
one key. -/
theorem run_queueInv (env : FutexEnv) (word : Nat → Nat → Nat) (trace : List Action)
    (htrace : ∀ a ∈ trace, a.isRequeue = false) {s' : FutexState} {rs : List (Option Nat)}
    (hrun : run env ⟨fun _ => [], word, fun _ => .idle⟩ trace = some (s', rs)) :
    s'.QueueInv ∧ ∀ k1 k2 tid, tid ∈ s'.waiters k1 → tid ∈ s'.waiters k2 → k1 = k2 := by
  have h0 : (⟨fun _ => [], word, fun _ => .idle⟩ : FutexState).QueueInv :=
    ⟨fun _ _ hm => by simp at hm, fun _ => List.nodup_nil⟩
  have h := h0.run htrace hrun
  exact ⟨h, fun _ _ _ h1 h2 => h.key_unique h1 h2⟩

theorem run_queueInv_on_wait_and_wake :
    ∃ s' rs, (∀ a ∈ [Action.call 1 1 0x1000 (futexWait ||| futexPrivateFlag) 0 0 0 0,
        .call 2 1 0x1000 (futexWake ||| futexPrivateFlag) 1 0 0 0, .resume 1, .finish 1 false false],
        a.isRequeue = false) ∧
      run ⟨fun _ p _ => decide (0x1000 ≤ p), fun _ _ _ => false⟩ ⟨fun _ => [], fun _ _ => 0, fun _ => .idle⟩
        [.call 1 1 0x1000 (futexWait ||| futexPrivateFlag) 0 0 0 0,
         .call 2 1 0x1000 (futexWake ||| futexPrivateFlag) 1 0 0 0, .resume 1,
         .finish 1 false false] = some (s', rs) ∧
      s'.QueueInv ∧ ∀ k1 k2 tid, tid ∈ s'.waiters k1 → tid ∈ s'.waiters k2 → k1 = k2 := by
  have hsome : (run ⟨fun _ p _ => decide (0x1000 ≤ p), fun _ _ _ => false⟩ ⟨fun _ => [], fun _ _ => 0, fun _ => .idle⟩
      [.call 1 1 0x1000 (futexWait ||| futexPrivateFlag) 0 0 0 0,
       .call 2 1 0x1000 (futexWake ||| futexPrivateFlag) 1 0 0 0, .resume 1,
       .finish 1 false false]).isSome := by decide
  have htrace : ∀ a ∈ [Action.call 1 1 0x1000 (futexWait ||| futexPrivateFlag) 0 0 0 0,
      .call 2 1 0x1000 (futexWake ||| futexPrivateFlag) 1 0 0 0, .resume 1, .finish 1 false false],
      a.isRequeue = false := by decide
  exact ⟨_, _, htrace, (Option.some_get hsome).symm,
    run_queueInv _ _ _ htrace (Option.some_get hsome).symm⟩

/-- A `FUTEX_REQUEUE` that moves a waiter from `0x1000` to `0x2000`, then a
spurious return of the waiter from `schedule_blocking`: its `FUTEX_WAIT`
returns 0 though nothing woke it, its tid stays queued under `0x2000` while
the thread is out of the call, and a `FUTEX_WAKE` there reports waking one
thread. -/
theorem futexWait_returns_zero_after_requeue :
    (run ⟨fun _ p _ => decide (0x1000 ≤ p), fun _ _ _ => false⟩ ⟨fun _ => [], fun _ _ => 0, fun _ => .idle⟩
      [.call 1 1 0x1000 (futexWait ||| futexPrivateFlag) 0 0 0 0,
       .call 2 1 0x1000 (futexRequeue ||| futexPrivateFlag) 0 1 0x2000 0,
       .resume 1,
       .finish 1 false false]).map (fun p => (p.2, p.1.waiters ⟨1, 0x2000⟩, p.1.phase 1)) =
      some ([none, some 1, none, some 0], [1], .idle) ∧
    (run ⟨fun _ p _ => decide (0x1000 ≤ p), fun _ _ _ => false⟩ ⟨fun _ => [], fun _ _ => 0, fun _ => .idle⟩
      [.call 1 1 0x1000 (futexWait ||| futexPrivateFlag) 0 0 0 0,
       .call 2 1 0x1000 (futexRequeue ||| futexPrivateFlag) 0 1 0x2000 0,
       .resume 1,
       .finish 1 false false,
       .call 2 1 0x2000 (futexWake ||| futexPrivateFlag) 1 0 0 0]).map (·.2) =
      some [none, some 1, none, some 0, some 1] := by
  decide

end Akuma.Syscall
