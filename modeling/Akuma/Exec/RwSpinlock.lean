import Mathlib

/-!
# The reader-writer spinlock

`RawRwSpinlock` of `akuma-exec/src/sync.rs`: one `AtomicU32`, with the writer
bit at bit 31 and the reader count below it. Each thread makes the lock's
calls one atomic operation at a time (`RwPc` is where it is in a call), under
sequential consistency and in any interleaving, and any
`compare_exchange_weak` may fail spuriously. A thread inside a section takes
the matching unlock as its next step. The spin hints and the diagnostic
load of the drain loop change nothing and are left out.

Every reachable state keeps the word at `2 ^ 31` for the one thread that
holds the writer bit, if any, plus one per reader inside (`RwSys.Inv`). So,
with any number of threads, at most one thread is inside an exclusive
section, no reader is inside with it, and the writer bit is set while a
writer is inside (`rwSpinlock_excludes_any_threads`). The count bits count
the readers when there are fewer than `2 ^ 31` threads
(`rwSpinlock_exclusion`); `2 ^ 31` readers inside carry the count into the
writer bit (`readers_overflow_into_writer_bit`).
-/

namespace Akuma.Exec

/-! ## The word -/

def writerBit : Nat := 0x80000000
def readerMask : Nat := 0x7FFFFFFF
def unlocked : Nat := 0

theorem writerBit_eq : writerBit = 2 ^ 31 := rfl

/-- Bit 31 of a `u32`. -/
theorem and_writerBit {w : Nat} (hw : w < 2 ^ 32) :
    w &&& writerBit = if writerBit ≤ w then writerBit else 0 := by
  rw [writerBit_eq, Nat.and_two_pow, Nat.testBit_eq_decide_div_mod_eq]
  split_ifs with h
  · have hbit : w / 2 ^ 31 % 2 = 1 := by omega
    rw [hbit]
    rfl
  · have hbit : w / 2 ^ 31 % 2 = 0 := by omega
    rw [hbit]
    rfl

/-- `fetch_or(WRITER_BIT)` on a `u32`: the word is unchanged when the bit is
set, and gains it otherwise. -/
theorem or_writerBit {w : Nat} (hw : w < 2 ^ 32) :
    w ||| writerBit = if writerBit ≤ w then w else w + writerBit := by
  rw [writerBit_eq]
  split_ifs with h
  · -- `w` is the bit over a remainder below it
    obtain ⟨r, hr, rfl⟩ : ∃ r, r < 2 ^ 31 ∧ w = 2 ^ 31 + r := ⟨w - 2 ^ 31, by omega, by omega⟩
    have hdisj := Nat.two_pow_add_eq_or_of_lt hr 1
    rw [Nat.mul_one] at hdisj
    rw [hdisj, Nat.or_assoc, Nat.or_comm r, ← Nat.or_assoc, Nat.or_self]
  · have hdisj := Nat.two_pow_add_eq_or_of_lt (show w < 2 ^ 31 by omega) 1
    rw [Nat.mul_one] at hdisj
    rw [Nat.or_comm, ← hdisj, Nat.add_comm]

/-- The reader count bits of a word below the writer bit and another. -/
theorem and_readerMask {o r : Nat} (hr : r < writerBit) :
    (writerBit * o + r) &&& readerMask = r := by
  rw [show readerMask = 2 ^ 31 - 1 from rfl, Nat.and_two_pow_sub_one_eq_mod, ← writerBit_eq,
    Nat.mul_add_mod, Nat.mod_eq_of_lt hr]

/-! ## Threads -/

/-- The calls a thread can make. -/
inductive RwOp
  | lockShared
  | tryLockShared
  | lockExclusive
  | tryLockExclusive
  deriving DecidableEq, Repr

/-- Where a thread is: outside the lock, before one atomic operation of a
call, or inside a section. -/
inductive RwPc
  | idle
  /-- `lock_shared`: the load at the top of its loop. -/
  | sharedLoad
  /-- `lock_shared`: the `compare_exchange_weak` from what it loaded. -/
  | sharedCas (state : Nat)
  | trySharedLoad
  | trySharedCas (state : Nat)
  | shared
  /-- `lock_exclusive`: the first `fetch_or`. -/
  | exclusiveFetchOr
  /-- The retry loop of a writer that found the bit taken: its load, its
  `compare_exchange_weak` from `UNLOCKED`, and its second `fetch_or`. -/
  | retryLoad
  | retryCas
  | retryFetchOr
  /-- Phase 2: waiting for the readers to leave. -/
  | drain
  | tryExclusiveCas
  | exclusive
  deriving DecidableEq, Repr

/-- Where a call starts. -/
def RwOp.entry : RwOp → RwPc
  | .lockShared => .sharedLoad
  | .tryLockShared => .trySharedLoad
  | .lockExclusive => .exclusiveFetchOr
  | .tryLockExclusive => .tryExclusiveCas

/-- The atomic operation a thread at `pc` makes on the word `w`: where it
goes next, and the word after. `weakFails` makes a `compare_exchange_weak`
fail. -/
def RwPc.step (pc : RwPc) (w : Nat) (weakFails : Bool) : RwPc × Nat :=
  match pc with
  | .idle => (.idle, w)
  | .sharedLoad => if w &&& writerBit ≠ 0 then (.sharedLoad, w) else (.sharedCas w, w)
  | .sharedCas state => if w = state ∧ !weakFails then (.shared, state + 1) else (.sharedLoad, w)
  | .trySharedLoad => if w &&& writerBit ≠ 0 then (.idle, w) else (.trySharedCas w, w)
  | .trySharedCas state => if w = state then (.shared, state + 1) else (.idle, w)
  -- `unlock_shared`: `fetch_sub(1)`, which wraps
  | .shared => (.idle, (w + 2 ^ 32 - 1) % 2 ^ 32)
  | .exclusiveFetchOr =>
    if w &&& writerBit ≠ 0 then (.retryLoad, w ||| writerBit) else (.drain, w ||| writerBit)
  | .retryLoad =>
    if w = unlocked then (.retryCas, w)
    else if w &&& writerBit = 0 then (.retryFetchOr, w)
    else (.retryLoad, w)
  | .retryCas => if w = unlocked ∧ !weakFails then (.drain, writerBit) else (.retryLoad, w)
  | .retryFetchOr =>
    if w &&& writerBit = 0 then (.drain, w ||| writerBit) else (.retryLoad, w ||| writerBit)
  | .drain => if w ≠ writerBit then (.drain, w) else (.exclusive, w)
  | .tryExclusiveCas => if w = unlocked then (.exclusive, writerBit) else (.idle, w)
  -- `unlock_exclusive`: `store(UNLOCKED)`
  | .exclusive => (.idle, unlocked)

/-- The lock's word and every thread. -/
structure RwSys where
  word : Nat
  threads : List RwPc
  deriving DecidableEq, Repr

/-- `n` threads outside an `INIT` lock. -/
def RwSys.init (n : Nat) : RwSys := ⟨unlocked, List.replicate n .idle⟩

/-- A thread outside the lock starts a call, or a thread makes its next
atomic operation. -/
inductive RwEvent
  | call (t : Nat) (op : RwOp)
  | step (t : Nat) (weakFails : Bool)
  deriving DecidableEq, Repr

def RwSys.apply (s : RwSys) : RwEvent → RwSys
  | .call t op =>
    if s.threads[t]? = some .idle then { s with threads := s.threads.set t op.entry } else s
  | .step t weakFails =>
    match s.threads[t]? with
    | some pc => ⟨(pc.step s.word weakFails).2, s.threads.set t (pc.step s.word weakFails).1⟩
    | none => s

def RwSys.run (s : RwSys) (events : List RwEvent) : RwSys := events.foldl RwSys.apply s

/-! ## What one step does -/

/-- A reader inside. -/
def RwPc.isShared : RwPc → Bool
  | .shared => true
  | _ => false

def RwPc.isExclusive : RwPc → Bool
  | .exclusive => true
  | _ => false

/-- The thread set the writer bit and has not cleared it yet: it is waiting
for the readers to leave, or it is inside. -/
def RwPc.ownsWriterBit : RwPc → Bool
  | .drain | .exclusive => true
  | _ => false

/-- A reader's compare-exchange is from a word it loaded with the writer bit
clear. -/
def RwPc.LoadedOk : RwPc → Prop
  | .sharedCas state | .trySharedCas state => state < writerBit
  | _ => True

/-- A step that moves a thread between places of the same kind. -/
def RwPc.SameKind (pc pc' : RwPc) : Prop :=
  pc'.isShared = pc.isShared ∧ pc'.isExclusive = pc.isExclusive ∧
    pc'.ownsWriterBit = pc.ownsWriterBit

/-- Everything one atomic step can do, on a `u32` word: leave the word and
the thread's kind as they were, let a reader in or out, give a writer the
writer bit, or let a writer in or out. -/
theorem RwPc.step_cases (pc : RwPc) {w : Nat} (weakFails : Bool) (hw : w < 2 ^ 32)
    (hok : pc.LoadedOk) :
    ((pc.step w weakFails).2 = w ∧ pc.SameKind (pc.step w weakFails).1 ∧
        (pc.step w weakFails).1.LoadedOk) ∨
      (w < writerBit ∧ pc.isShared = false ∧ pc.isExclusive = false ∧
        pc.ownsWriterBit = false ∧ pc.step w weakFails = (.shared, w + 1)) ∨
      (pc = .shared ∧ pc.step w weakFails = (.idle, (w + 2 ^ 32 - 1) % 2 ^ 32)) ∨
      (w < writerBit ∧ pc.isShared = false ∧ pc.isExclusive = false ∧
        pc.ownsWriterBit = false ∧ pc.step w weakFails = (.drain, w + writerBit)) ∨
      ((pc = .drain ∧ w = writerBit ∨ pc = .tryExclusiveCas ∧ w = unlocked) ∧
        pc.step w weakFails = (.exclusive, writerBit)) ∨
      (pc = .exclusive ∧ pc.step w weakFails = (.idle, unlocked)) := by
  have hset : writerBit ≤ w → w &&& writerBit ≠ 0 := fun hb => by
    rw [and_writerBit hw, if_pos hb]
    decide
  have hclear : ¬writerBit ≤ w → w &&& writerBit = 0 := fun hb => by
    rw [and_writerBit hw, if_neg hb]
  have hor_set : writerBit ≤ w → w ||| writerBit = w := fun hb => by
    rw [or_writerBit hw, if_pos hb]
  have hor_clear : ¬writerBit ≤ w → w ||| writerBit = w + writerBit := fun hb => by
    rw [or_writerBit hw, if_neg hb]
  have hsame : ∀ pc', pc.SameKind pc' → pc'.LoadedOk → pc.step w weakFails = (pc', w) →
      ((pc.step w weakFails).2 = w ∧ pc.SameKind (pc.step w weakFails).1 ∧
        (pc.step w weakFails).1.LoadedOk) := fun pc' hk hok' h => by
    rw [h]
    exact ⟨rfl, hk, hok'⟩
  cases pc with
  | idle => exact .inl (hsame .idle ⟨rfl, rfl, rfl⟩ trivial rfl)
  | sharedLoad =>
    by_cases hb : writerBit ≤ w
    · exact .inl (hsame .sharedLoad ⟨rfl, rfl, rfl⟩ trivial (by simp [RwPc.step, hset hb]))
    · -- the load saw the bit clear: what it loaded is below it
      exact .inl (hsame (.sharedCas w) ⟨rfl, rfl, rfl⟩ (by simp only [RwPc.LoadedOk]; omega)
        (by simp [RwPc.step, hclear hb]))
  | sharedCas state =>
    simp only [RwPc.LoadedOk] at hok
    by_cases hc : w = state ∧ weakFails = false
    · obtain ⟨rfl, rfl⟩ := hc
      exact .inr (.inl ⟨hok, rfl, rfl, rfl, by simp [RwPc.step]⟩)
    · exact .inl (hsame .sharedLoad ⟨rfl, rfl, rfl⟩ trivial (by
        simp only [RwPc.step, Bool.not_eq_true']
        rw [if_neg hc]))
  | trySharedLoad =>
    by_cases hb : writerBit ≤ w
    · exact .inl (hsame .idle ⟨rfl, rfl, rfl⟩ trivial (by simp [RwPc.step, hset hb]))
    · exact .inl (hsame (.trySharedCas w) ⟨rfl, rfl, rfl⟩ (by simp only [RwPc.LoadedOk]; omega)
        (by simp [RwPc.step, hclear hb]))
  | trySharedCas state =>
    simp only [RwPc.LoadedOk] at hok
    by_cases hc : w = state
    · subst hc
      exact .inr (.inl ⟨hok, rfl, rfl, rfl, by simp [RwPc.step]⟩)
    · exact .inl (hsame .idle ⟨rfl, rfl, rfl⟩ trivial (by simp [RwPc.step, hc]))
  | shared => exact .inr (.inr (.inl ⟨rfl, rfl⟩))
  | exclusiveFetchOr =>
    by_cases hb : writerBit ≤ w
    · exact .inl (hsame .retryLoad ⟨rfl, rfl, rfl⟩ trivial (by simp [RwPc.step, hset hb, hor_set hb]))
    · exact .inr (.inr (.inr (.inl ⟨by omega, rfl, rfl, rfl, by simp [RwPc.step, hclear hb, hor_clear hb]⟩)))
  | retryLoad =>
    by_cases h0 : w = unlocked
    · exact .inl (hsame .retryCas ⟨rfl, rfl, rfl⟩ trivial (by simp [RwPc.step, h0]))
    · by_cases hb : writerBit ≤ w
      · exact .inl (hsame .retryLoad ⟨rfl, rfl, rfl⟩ trivial
          (by simp [RwPc.step, h0, hset hb]))
      · exact .inl (hsame .retryFetchOr ⟨rfl, rfl, rfl⟩ trivial (by simp [RwPc.step, h0, hclear hb]))
  | retryCas =>
    by_cases hc : w = unlocked ∧ weakFails = false
    · obtain ⟨h0, rfl⟩ := hc
      refine .inr (.inr (.inr (.inl ⟨by simp [h0, unlocked, writerBit], rfl, rfl, rfl, ?_⟩)))
      simp [RwPc.step, h0, unlocked]
    · exact .inl (hsame .retryLoad ⟨rfl, rfl, rfl⟩ trivial (by
        simp only [RwPc.step, Bool.not_eq_true']
        rw [if_neg hc]))
  | retryFetchOr =>
    by_cases hb : writerBit ≤ w
    · exact .inl (hsame .retryLoad ⟨rfl, rfl, rfl⟩ trivial (by simp [RwPc.step, hset hb, hor_set hb]))
    · exact .inr (.inr (.inr (.inl ⟨by omega, rfl, rfl, rfl, by simp [RwPc.step, hclear hb, hor_clear hb]⟩)))
  | drain =>
    by_cases hd : w = writerBit
    · subst hd
      exact .inr (.inr (.inr (.inr (.inl ⟨.inl ⟨rfl, rfl⟩, by simp [RwPc.step]⟩))))
    · exact .inl (hsame .drain ⟨rfl, rfl, rfl⟩ trivial (by simp [RwPc.step, hd]))
  | tryExclusiveCas =>
    by_cases h0 : w = unlocked
    · exact .inr (.inr (.inr (.inr (.inl ⟨.inr ⟨rfl, h0⟩, by simp [RwPc.step, h0]⟩))))
    · exact .inl (hsame .idle ⟨rfl, rfl, rfl⟩ trivial (by simp [RwPc.step, h0]))
  | exclusive => exact .inr (.inr (.inr (.inr (.inr ⟨rfl, rfl⟩))))

/-! ## The invariant -/

/-- Setting one element moves the count of a predicate by that element's
old and new value. -/
theorem countP_set_add {α : Type} {q : α → Bool} {l : List α} {t : Nat} {a : α}
    (ht : l[t]? = some a) (b : α) :
    (l.set t b).countP q + (q a).toNat = l.countP q + (q b).toNat := by
  obtain ⟨hlt, heq⟩ := List.getElem?_eq_some_iff.mp ht
  rw [List.countP_set hlt, heq]
  cases hqa : q a
  · cases q b <;> simp
  · -- `a` is in the list, so it is counted there
    have hpos : 0 < l.countP q := List.countP_pos_iff.mpr ⟨a, List.mem_of_getElem? ht, hqa⟩
    cases q b <;> simp <;> omega

@[simp] theorem RwPc.isShared_shared : RwPc.shared.isShared = true := rfl
@[simp] theorem RwPc.isShared_idle : RwPc.idle.isShared = false := rfl
@[simp] theorem RwPc.isShared_drain : RwPc.drain.isShared = false := rfl
@[simp] theorem RwPc.isShared_exclusive : RwPc.exclusive.isShared = false := rfl
@[simp] theorem RwPc.isExclusive_shared : RwPc.shared.isExclusive = false := rfl
@[simp] theorem RwPc.isExclusive_idle : RwPc.idle.isExclusive = false := rfl
@[simp] theorem RwPc.isExclusive_drain : RwPc.drain.isExclusive = false := rfl
@[simp] theorem RwPc.isExclusive_exclusive : RwPc.exclusive.isExclusive = true := rfl
@[simp] theorem RwPc.ownsWriterBit_shared : RwPc.shared.ownsWriterBit = false := rfl
@[simp] theorem RwPc.ownsWriterBit_idle : RwPc.idle.ownsWriterBit = false := rfl
@[simp] theorem RwPc.ownsWriterBit_drain : RwPc.drain.ownsWriterBit = true := rfl
@[simp] theorem RwPc.ownsWriterBit_exclusive : RwPc.exclusive.ownsWriterBit = true := rfl

namespace RwSys

def readers (s : RwSys) : Nat := s.threads.countP RwPc.isShared
def writers (s : RwSys) : Nat := s.threads.countP RwPc.isExclusive
def owners (s : RwSys) : Nat := s.threads.countP RwPc.ownsWriterBit

theorem writers_le_owners (s : RwSys) : s.writers ≤ s.owners :=
  List.countP_mono_left fun pc _ h => by cases pc <;> simp_all [RwPc.isExclusive, RwPc.ownsWriterBit]

/-- One thread moved to `pc'`: each count moves by that thread's old and new
kind. -/
theorem counts_set {s : RwSys} {t : Nat} {pc : RwPc} (ht : s.threads[t]? = some pc) (pc' : RwPc) :
    (s.threads.set t pc').countP RwPc.isShared + pc.isShared.toNat =
        s.readers + pc'.isShared.toNat ∧
      (s.threads.set t pc').countP RwPc.isExclusive + pc.isExclusive.toNat =
        s.writers + pc'.isExclusive.toNat ∧
      (s.threads.set t pc').countP RwPc.ownsWriterBit + pc.ownsWriterBit.toNat =
        s.owners + pc'.ownsWriterBit.toNat :=
  ⟨countP_set_add ht pc', countP_set_add ht pc', countP_set_add ht pc'⟩

/-- The word, a `u32`, is `2 ^ 31` for the holder of the writer bit, if
any, plus one per reader inside; a writer inside is alone; and every reader's
compare-exchange is from a word without the bit. -/
structure Inv (s : RwSys) : Prop where
  word_eq : s.word = writerBit * s.owners + s.readers
  owners_le : s.owners ≤ 1
  word_lt : s.word < 2 ^ 32
  writer_alone : 0 < s.writers → s.readers = 0
  loaded : ∀ pc ∈ s.threads, pc.LoadedOk

/-- No thread holds the writer bit while the word is below it. -/
theorem Inv.owners_eq_zero {s : RwSys} (h : s.Inv) (hlt : s.word < writerBit) : s.owners = 0 := by
  have hw := h.word_eq
  simp only [writerBit] at hw hlt
  omega

theorem Inv.loaded_set {s : RwSys} (h : s.Inv) {t : Nat} {pc' : RwPc} (hok : pc'.LoadedOk) :
    ∀ pc ∈ s.threads.set t pc', pc.LoadedOk := fun pc hpc => by
  rcases List.mem_or_eq_of_mem_set hpc with hmem | rfl
  · exact h.loaded pc hmem
  · exact hok

theorem Inv.init (n : Nat) : (RwSys.init n).Inv where
  word_eq := by simp [RwSys.init, readers, owners, unlocked, List.countP_replicate]
  owners_le := by simp [RwSys.init, owners, List.countP_replicate]
  word_lt := by simp [RwSys.init, unlocked]
  writer_alone := by simp [RwSys.init, writers, List.countP_replicate]
  loaded := by simp [RwSys.init, RwPc.LoadedOk]

section Kinds

variable {s : RwSys} {t : Nat} {pc : RwPc}

/-- The invariant after one thread moves from `pc` to `pc'` and the word
becomes `w`, from what the move does to the word and the counts. -/
theorem Inv.set (h : s.Inv) (ht : s.threads[t]? = some pc) {pc' : RwPc} {w : Nat}
    (hword : w + writerBit * pc.ownsWriterBit.toNat + pc.isShared.toNat =
      s.word + writerBit * pc'.ownsWriterBit.toNat + pc'.isShared.toNat)
    (howners : s.owners + pc'.ownsWriterBit.toNat ≤ 1 + pc.ownsWriterBit.toNat)
    (halone : 0 < s.writers + pc'.isExclusive.toNat - pc.isExclusive.toNat →
      s.readers + pc'.isShared.toNat - pc.isShared.toNat = 0)
    (hwlt : w < 2 ^ 32) (hok : pc'.LoadedOk) : (RwSys.mk w (s.threads.set t pc')).Inv := by
  obtain ⟨hR, hW, hO⟩ := counts_set ht pc'
  have hw := h.word_eq
  refine ⟨?_, ?_, hwlt, fun hpos => ?_, h.loaded_set hok⟩
  · show w = writerBit * (s.threads.set t pc').countP _ + (s.threads.set t pc').countP _
    simp only [writerBit] at hw hword ⊢
    omega
  · show (s.threads.set t pc').countP _ ≤ 1
    omega
  · change 0 < (s.threads.set t pc').countP _ at hpos
    show (s.threads.set t pc').countP _ = 0
    omega

/-- A load, a spin or a failed operation. -/
theorem Inv.same_kind (h : s.Inv) (ht : s.threads[t]? = some pc) {pc' : RwPc}
    (hk : pc.SameKind pc') (hok : pc'.LoadedOk) : (RwSys.mk s.word (s.threads.set t pc')).Inv := by
  obtain ⟨hs, he, ho⟩ := hk
  have hle := h.owners_le
  have halone := h.writer_alone
  refine h.set ht ?_ ?_ ?_ h.word_lt hok <;> simp only [hs, he, ho] <;> omega

/-- A reader's compare-exchange succeeds: the word had no writer bit, so no
writer is inside. -/
theorem Inv.reader_in (h : s.Inv) (ht : s.threads[t]? = some pc) (hlt : s.word < writerBit)
    (hs : pc.isShared = false) (he : pc.isExclusive = false) (ho : pc.ownsWriterBit = false) :
    (RwSys.mk (s.word + 1) (s.threads.set t .shared)).Inv := by
  have hno := h.owners_eq_zero hlt
  have hnw : s.writers = 0 := Nat.le_zero.mp (hno ▸ writers_le_owners s)
  refine h.set ht ?_ ?_ ?_ (by simp only [writerBit] at hlt; omega) trivial <;>
    simp [hs, he, ho, hno, hnw]

/-- `unlock_shared`: the word holds this reader's one, so the `fetch_sub`
does not wrap. -/
theorem Inv.reader_out (h : s.Inv) (ht : s.threads[t]? = some .shared) :
    (RwSys.mk ((s.word + 2 ^ 32 - 1) % 2 ^ 32) (s.threads.set t .idle)).Inv := by
  have hpos : 0 < s.readers := List.countP_pos_iff.mpr ⟨.shared, List.mem_of_getElem? ht, rfl⟩
  have hw := h.word_eq
  have hlt := h.word_lt
  have hle := h.owners_le
  have halone := h.writer_alone
  refine h.set ht ?_ ?_ ?_ (Nat.mod_lt _ (by decide)) trivial <;> simp only [RwPc.isShared_shared, RwPc.isExclusive_shared,
    RwPc.ownsWriterBit_shared, RwPc.isShared_idle, RwPc.isExclusive_idle, RwPc.ownsWriterBit_idle,
    Bool.toNat_false, Bool.toNat_true]
  · omega
  · omega
  · intro hw0
    have := halone (by omega)
    omega

/-- A writer's `fetch_or` or compare-exchange finds the bit clear and takes
it. -/
theorem Inv.writer_takes_bit (h : s.Inv) (ht : s.threads[t]? = some pc) (hlt : s.word < writerBit)
    (hs : pc.isShared = false) (he : pc.isExclusive = false) (ho : pc.ownsWriterBit = false) :
    (RwSys.mk (s.word + writerBit) (s.threads.set t .drain)).Inv := by
  have hno := h.owners_eq_zero hlt
  have halone := h.writer_alone
  refine h.set ht ?_ ?_ ?_ (by simp only [writerBit] at hlt ⊢; omega) trivial <;>
    simp [hs, he, ho, hno]
  exact fun hpos => halone (by omega)

/-- A writer gets in: from the drain when the word is the bit alone, or by
`try_lock_exclusive` from `UNLOCKED`; either way no reader is inside. -/
theorem Inv.writer_in (h : s.Inv) (ht : s.threads[t]? = some pc)
    (hcase : pc = .drain ∧ s.word = writerBit ∨ pc = .tryExclusiveCas ∧ s.word = unlocked) :
    (RwSys.mk writerBit (s.threads.set t .exclusive)).Inv := by
  have hw := h.word_eq
  have hle := h.owners_le
  simp only [writerBit] at hw
  rcases hcase with ⟨rfl, hword⟩ | ⟨rfl, hword⟩
  · -- at the drain this thread holds the bit, so the word being the bit leaves no reader
    have hpos : 0 < s.owners := List.countP_pos_iff.mpr ⟨.drain, List.mem_of_getElem? ht, rfl⟩
    simp only [writerBit] at hword
    refine h.set ht ?_ ?_ ?_ (by decide) trivial <;> simp [writerBit] <;> omega
  · simp only [unlocked] at hword
    refine h.set ht ?_ ?_ ?_ (by decide) trivial <;>
      simp [RwPc.ownsWriterBit, RwPc.isShared, writerBit] <;> omega

/-- `unlock_exclusive`: the writer was alone, so the word was the bit and
nothing else, and `UNLOCKED` keeps the count. -/
theorem Inv.writer_out (h : s.Inv) (ht : s.threads[t]? = some .exclusive) :
    (RwSys.mk unlocked (s.threads.set t .idle)).Inv := by
  have hpos : 0 < s.writers := List.countP_pos_iff.mpr ⟨.exclusive, List.mem_of_getElem? ht, rfl⟩
  have hown : 0 < s.owners := lt_of_lt_of_le hpos (writers_le_owners s)
  have hr0 := h.writer_alone hpos
  have hle := h.owners_le
  have hw := h.word_eq
  simp only [writerBit] at hw
  refine h.set ht ?_ ?_ ?_ (by decide) trivial <;> simp [unlocked, writerBit, hr0] <;> omega

end Kinds

theorem Inv.apply {s : RwSys} (h : s.Inv) (e : RwEvent) : (s.apply e).Inv := by
  cases e with
  | call t op =>
    simp only [RwSys.apply]
    split_ifs with hidle
    · -- a call starts from outside, where the thread counts nothing
      have hk : RwPc.idle.SameKind op.entry := by cases op <;> exact ⟨rfl, rfl, rfl⟩
      have hok : op.entry.LoadedOk := by cases op <;> trivial
      exact h.same_kind hidle hk hok
    · exact h
  | step t weakFails =>
    simp only [RwSys.apply]
    split
    · rename_i pc ht
      rcases pc.step_cases weakFails h.word_lt (h.loaded pc (List.mem_of_getElem? ht)) with
        ⟨hw, hk, hok⟩ | ⟨hlt, hs, he, ho, hstep⟩ | ⟨rfl, hstep⟩ | ⟨hlt, hs, he, ho, hstep⟩ |
          ⟨hcase, hstep⟩ | ⟨rfl, hstep⟩
      · rw [hw]
        exact h.same_kind ht hk hok
      · rw [hstep]
        exact h.reader_in ht hlt hs he ho
      · rw [hstep]
        exact h.reader_out ht
      · rw [hstep]
        exact h.writer_takes_bit ht hlt hs he ho
      · rw [hstep]
        exact h.writer_in ht hcase
      · rw [hstep]
        exact h.writer_out ht
    · exact h

theorem Inv.run {s : RwSys} (h : s.Inv) (events : List RwEvent) : (s.run events).Inv := by
  induction events generalizing s with
  | nil => exact h
  | cons e events ih => exact ih (h.apply e)

end RwSys

/-! ## Exclusion -/

namespace RwSys

theorem run_append (s : RwSys) (l₁ l₂ : List RwEvent) : s.run (l₁ ++ l₂) = (s.run l₁).run l₂ :=
  List.foldl_append

theorem length_apply (s : RwSys) (e : RwEvent) : (s.apply e).threads.length = s.threads.length := by
  cases e with
  | call t op =>
    simp only [RwSys.apply]
    split_ifs <;> simp
  | step t weakFails =>
    simp only [RwSys.apply]
    split <;> simp

theorem length_run (s : RwSys) (events : List RwEvent) :
    (s.run events).threads.length = s.threads.length := by
  induction events generalizing s with
  | nil => rfl
  | cons e events ih => exact (ih (s.apply e)).trans (length_apply s e)

/-- A writer inside holds the writer bit, so the bit is set. -/
theorem Inv.writerBit_set {s : RwSys} (h : s.Inv) (hpos : 0 < s.writers) :
    s.word &&& writerBit ≠ 0 := by
  have hown : 0 < s.owners := lt_of_lt_of_le hpos (writers_le_owners s)
  have hw := h.word_eq
  rw [and_writerBit h.word_lt, if_pos (by rw [hw]; simp only [writerBit]; omega)]
  decide

end RwSys

theorem rwSpinlock_exclusion (n : Nat) (hn : n < writerBit) (events : List RwEvent) :
    let s := (RwSys.init n).run events
    s.writers ≤ 1 ∧ (0 < s.writers → s.readers = 0) ∧ s.word &&& readerMask = s.readers ∧
      (0 < s.writers → s.word &&& writerBit ≠ 0) := by
  intro s
  have h : s.Inv := (RwSys.Inv.init n).run events
  have hwo := RwSys.writers_le_owners s
  have hle := h.owners_le
  -- the threads never change in number, so the readers stay below the writer bit
  have hlen : s.threads.length = n := by
    simp [s, RwSys.length_run, RwSys.init]
  refine ⟨by omega, h.writer_alone, ?_, h.writerBit_set⟩
  rw [h.word_eq]
  exact and_readerMask (lt_of_le_of_lt List.countP_le_length (hlen ▸ hn))

/-- A writer takes the lock and a reader then spins on its bit: the writer is
inside alone. -/
theorem rwSpinlock_exclusion_writer_then_reader :
    let s := (RwSys.init 2).run [.call 0 .lockExclusive, .step 0 false, .step 0 false,
      .call 1 .lockShared, .step 1 false]
    (2 < writerBit ∧ s.writers = 1) ∧
      (s.writers ≤ 1 ∧ (0 < s.writers → s.readers = 0) ∧ s.word &&& readerMask = s.readers ∧
        (0 < s.writers → s.word &&& writerBit ≠ 0)) :=
  ⟨by decide, rwSpinlock_exclusion 2 (by decide) _⟩

/-- With any number of threads, no two writers are inside at once, no reader
is inside with a writer, and the writer bit is set while a writer is. -/
theorem rwSpinlock_excludes_any_threads (n : Nat) (events : List RwEvent) :
    let s := (RwSys.init n).run events
    s.writers ≤ 1 ∧ (0 < s.writers → s.readers = 0) ∧ (0 < s.writers → s.word &&& writerBit ≠ 0) := by
  intro s
  have h : s.Inv := (RwSys.Inv.init n).run events
  have hwo := RwSys.writers_le_owners s
  have hle := h.owners_le
  exact ⟨by omega, h.writer_alone, h.writerBit_set⟩

/-! ## Readers into the writer bit -/

/-- Threads `0` to `k - 1` each take a shared lock, one after the other. -/
def readersEnter (k : Nat) : List RwEvent :=
  (List.range k).flatMap fun t => [.call t .lockShared, .step t false, .step t false]

/-- With `k` readers inside and nothing else, thread `k` takes a shared lock
in three steps. -/
theorem run_reader_enters {k : Nat} (hk : k < writerBit) (rest : List RwPc) :
    (RwSys.mk k (List.replicate k .shared ++ .idle :: rest)).run
        [.call k .lockShared, .step k false, .step k false] =
      ⟨k + 1, List.replicate k .shared ++ .shared :: rest⟩ := by
  have hclear : k &&& writerBit = 0 := by
    rw [and_writerBit (by simp only [writerBit] at hk; omega), if_neg (by omega)]
  simp [RwSys.run, RwSys.apply, RwOp.entry, RwPc.step, hclear]

theorem run_readersEnter {n k : Nat} (hk : k ≤ n) (hkw : k ≤ writerBit) :
    (RwSys.init n).run (readersEnter k) =
      ⟨k, List.replicate k .shared ++ List.replicate (n - k) .idle⟩ := by
  induction k with
  | zero => simp [readersEnter, RwSys.run, RwSys.init, unlocked]
  | succ k ih =>
    have hrest : List.replicate (n - k) RwPc.idle = .idle :: List.replicate (n - (k + 1)) .idle := by
      rw [show n - k = n - (k + 1) + 1 by omega, List.replicate_succ]
    rw [readersEnter, List.range_succ, List.flatMap_append, RwSys.run_append, ← readersEnter,
      ih (by omega) (by omega), hrest, List.flatMap_singleton, run_reader_enters (by omega),
      List.replicate_succ', List.append_assoc]
    rfl

theorem readers_overflow_into_writer_bit :
    let s := (RwSys.init writerBit).run (readersEnter writerBit)
    s.readers = writerBit ∧ s.word &&& readerMask = 0 ∧ s.word &&& writerBit ≠ 0 ∧
      s.writers = 0 := by
  intro s
  have hs : s = ⟨writerBit, List.replicate writerBit .shared⟩ := by
    simpa using run_readersEnter (le_refl writerBit) (le_refl writerBit)
  rw [hs]
  refine ⟨by simp [RwSys.readers, List.countP_replicate], by decide, by decide, ?_⟩
  simp [RwSys.writers, List.countP_replicate]

end Akuma.Exec
