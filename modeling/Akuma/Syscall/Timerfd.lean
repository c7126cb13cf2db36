import Akuma.Syscall.Futex

/-!
# timerfd

The timer file descriptors of `syscall/timerfd.rs`: `sys_timerfd_settime`,
`sys_timerfd_gettime`, `timerfd_read` and `timerfd_can_read` over the entry
of one timer in `TIMERFD_TABLE`. An absent entry is a disarmed timer: the
code removes the entry when both `it_value` and `it_interval` are zero.

The code does not count expirations as they happen. Each call recomputes
from the clock how many there have been since arming, and a read hands out
the difference to `expirations_consumed`. The model keeps that arithmetic
as the code has it, all in microseconds of `uptime_us`, and each call reads
the clock once. The conversion of a `timespec` wraps in `u64` (the kernel
is built without overflow checks).

Beside it stands the timer POSIX describes: the first expiration at
`t0 + it_value`, or at the absolute time (at once if that has passed), then
one every `it_interval`, and none when `it_value` is zero. For a timer armed
with a deadline still ahead, a read hands out exactly the POSIX expirations
not yet read, and `EAGAIN` exactly when there are none (`run_reads_sum`). An
absolute deadline that has already passed arms the timer with
`initial_us = 0`, which the read path takes for a disarmed timer, so such a
timer never expires. Of the file descriptor the model keeps only the timer
it names, and of the state not the pollers, which only wake-ups read.
-/

namespace Akuma.Syscall

/-! ## POSIX timers -/

/-- The first expiration of a timer set at `t0` to `value`: relative, or at
the absolute time, and at once if that time has passed. -/
def posixFirstExpiry (t0 : Nat) (absolute : Bool) (value : Nat) : Nat :=
  if absolute then max value t0 else t0 + value

/-- The expirations by `now` of a timer that first expires at `first` and
then every `interval` (once only when `interval = 0`). -/
def posixExpirations (first interval now : Nat) : Nat :=
  if now < first then 0 else if interval = 0 then 1 else 1 + (now - first) / interval

theorem posixExpirations_mono (first interval : Nat) {t t' : Nat} (h : t ≤ t') :
    posixExpirations first interval t ≤ posixExpirations first interval t' := by
  unfold posixExpirations
  by_cases ht : t < first
  · simp only [ht, if_true]
    exact Nat.zero_le _
  · have ht' : ¬ t' < first := by omega
    simp only [ht, ht', if_false]
    split_ifs
    · exact le_rfl
    · have : (t - first) / interval ≤ (t' - first) / interval :=
        Nat.div_le_div_right (by omega)
      omega

theorem one_le_posixExpirations {first interval now : Nat} (h : first ≤ now) :
    1 ≤ posixExpirations first interval now := by
  unfold posixExpirations
  have : ¬ now < first := by omega
  simp only [this, if_false]
  split_ifs
  · exact le_rfl
  · exact Nat.le_add_right 1 _

/-! ## Timespecs -/

/-- `LocalTimespec`: the two `u64` words the calls copy to and from user
memory. -/
structure LocalTimespec where
  tvSec : Nat
  tvNsec : Nat
  deriving DecidableEq, Repr

/-- `struct itimerspec`: `it_interval` at offset 0, `it_value` at 16. -/
structure Itimerspec where
  itInterval : LocalTimespec
  itValue : LocalTimespec
  deriving DecidableEq, Repr

/-- `timespec_to_us_safe` once the copy succeeded:
`tv_sec * 1_000_000 + tv_nsec / 1_000` in `u64`. -/
def LocalTimespec.toUs (ts : LocalTimespec) : Nat :=
  (ts.tvSec * 1000000 + ts.tvNsec / 1000) % 2 ^ 64

/-- The timespec `us_to_timespec_safe` writes. -/
def usToTimespec (us : Nat) : LocalTimespec :=
  ⟨us / 1000000, us % 1000000 * 1000⟩

/-- A `u64` count of microseconds survives the trip out to a timespec and
back. -/
theorem usToTimespec_toUs {us : Nat} (h : us < 2 ^ 64) : (usToTimespec us).toUs = us := by
  have hn : us % 1000000 * 1000 / 1000 = us % 1000000 := by omega
  unfold usToTimespec LocalTimespec.toUs
  dsimp only
  rw [hn, Nat.div_add_mod', Nat.mod_eq_of_lt h]

/-- Past `2^64` microseconds the conversion wraps: the timer is set to a
value below the one asked for. -/
theorem toUs_wraps (ts : LocalTimespec) (h : 2 ^ 64 ≤ ts.tvSec * 1000000) :
    ts.toUs < ts.tvSec * 1000000 + ts.tvNsec / 1000 := by
  have : ts.toUs < 2 ^ 64 := Nat.mod_lt _ (by decide)
  omega

/-! ## The timer's entry -/

/-- `TimerFdState` without its pollers. -/
structure TimerFdState where
  armedAtUs : Nat
  initialUs : Nat
  intervalUs : Nat
  expirationsConsumed : Nat
  deriving DecidableEq, Repr

/-- The count of expirations since arming that `timerfd_can_read` and
`timerfd_read` both compute; `none` where they return early
(`initial_us == 0`, `elapsed < initial_us`). -/
def TimerFdState.totalExpirations (st : TimerFdState) (now : Nat) : Option Nat :=
  if st.initialUs = 0 then none else
  let elapsed := now - st.armedAtUs
  if elapsed < st.initialUs then none
  else some (if st.intervalUs > 0 then 1 + (elapsed - st.initialUs) / st.intervalUs else 1)

/-- `timerfd_can_read`. -/
def timerfdCanRead (entry : Option TimerFdState) (now : Nat) : Bool :=
  match entry with
  | none => false
  | some st =>
    match st.totalExpirations now with
    | none => false
    | some total => decide (total > st.expirationsConsumed)

/-- `timerfd_read`: the entry after the call and the `u64` it returns. -/
def timerfdRead (entry : Option TimerFdState) (now : Nat) : Option TimerFdState × Nat :=
  match entry with
  | none => (none, eagain)
  | some st =>
    match st.totalExpirations now with
    | none => (entry, eagain)
    | some total =>
      let newExpirations := total - st.expirationsConsumed
      if newExpirations = 0 then (entry, eagain)
      else (some { st with expirationsConsumed := total }, newExpirations)

/-- What `sys_timerfd_gettime` writes, and `sys_timerfd_settime` to
`old_value`: zeros for a disarmed timer, else the interval and
`initial_us - elapsed`. -/
def sysTimerfdGettime (entry : Option TimerFdState) (now : Nat) : Itimerspec :=
  match entry with
  | none => ⟨⟨0, 0⟩, ⟨0, 0⟩⟩
  | some st => ⟨usToTimespec st.intervalUs, usToTimespec (st.initialUs - (now - st.armedAtUs))⟩

/-- `TFD_TIMER_ABSTIME`. -/
def tfdTimerAbstime : Nat := 1

/-- `sys_timerfd_settime` once both pointers validated: the new entry, and
the old value it writes. -/
def sysTimerfdSettime (entry : Option TimerFdState) (now flags : Nat) (newValue : Itimerspec) :
    Option TimerFdState × Itimerspec :=
  let old := sysTimerfdGettime entry now
  let intervalUs := newValue.itInterval.toUs
  let initialUs := newValue.itValue.toUs
  let effectiveInitial := if flags &&& tfdTimerAbstime ≠ 0 then initialUs - now else initialUs
  if initialUs = 0 ∧ intervalUs = 0 then (none, old)
  else (some ⟨now, effectiveInitial, intervalUs, 0⟩, old)

/-! ## Runs -/

/-- A call on the timer. -/
inductive TimerCall
  | settime (flags : Nat) (newValue : Itimerspec)
  | read
  | canRead
  | gettime
  deriving DecidableEq, Repr

/-- What a call hands back. -/
inductive TimerReply
  | settime (old : Itimerspec)
  | read (result : Nat)
  | canRead (ready : Bool)
  | gettime (value : Itimerspec)
  deriving DecidableEq, Repr

def TimerCall.isSettime : TimerCall → Bool
  | .settime .. => true
  | .read => false
  | .canRead => false
  | .gettime => false

/-- One call at uptime `now`. -/
def TimerCall.apply (entry : Option TimerFdState) (now : Nat) :
    TimerCall → Option TimerFdState × TimerReply
  | .settime flags newValue =>
    let r := sysTimerfdSettime entry now flags newValue
    (r.1, .settime r.2)
  | .read =>
    let r := timerfdRead entry now
    (r.1, .read r.2)
  | .canRead => (entry, .canRead (timerfdCanRead entry now))
  | .gettime => (entry, .gettime (sysTimerfdGettime entry now))

/-- Calls one after another, each at its uptime. -/
def runTimer (entry : Option TimerFdState) : List (Nat × TimerCall) → Option TimerFdState × List TimerReply
  | [] => (entry, [])
  | (now, c) :: rest =>
    let r := c.apply entry now
    let out := runTimer r.1 rest
    (out.1, r.2 :: out.2)

/-- The counts that reads returned, errors left out. -/
def readCounts : List TimerReply → List Nat
  | [] => []
  | .read n :: rest => if n = eagain then readCounts rest else n :: readCounts rest
  | .settime _ :: rest => readCounts rest
  | .canRead _ :: rest => readCounts rest
  | .gettime _ :: rest => readCounts rest

/-! ## Each call against the POSIX count -/

/-- The count both read paths compute, `0` where they return early. -/
def TimerFdState.expirations (st : TimerFdState) (now : Nat) : Nat :=
  (st.totalExpirations now).getD 0

/-- An armed entry counts the expirations of the POSIX timer that first
expires at `armed_at_us + initial_us`. -/
theorem expirations_eq_posix (st : TimerFdState) (now : Nat) (h : st.initialUs ≠ 0) :
    st.expirations now = posixExpirations (st.armedAtUs + st.initialUs) st.intervalUs now := by
  have hlt : now - st.armedAtUs < st.initialUs ↔ now < st.armedAtUs + st.initialUs := by omega
  have hsub : now - st.armedAtUs - st.initialUs = now - (st.armedAtUs + st.initialUs) := by omega
  unfold TimerFdState.expirations TimerFdState.totalExpirations posixExpirations
  simp only [h, if_false, hlt, hsub]
  split_ifs <;> first | rfl | omega

/-- With `initial_us = 0` both read paths see a disarmed timer. -/
theorem expirations_of_initialUs_eq_zero (st : TimerFdState) (now : Nat) (h : st.initialUs = 0) :
    st.expirations now = 0 := by
  simp [TimerFdState.expirations, TimerFdState.totalExpirations, h]

/-- A read hands out what is counted and not yet consumed, and `EAGAIN`
with the entry unchanged when there is nothing. -/
theorem timerfdRead_some (st : TimerFdState) (now : Nat) :
    timerfdRead (some st) now =
      if st.expirationsConsumed < st.expirations now then
        (some { st with expirationsConsumed := st.expirations now },
          st.expirations now - st.expirationsConsumed)
      else (some st, eagain) := by
  unfold timerfdRead TimerFdState.expirations
  rcases h : st.totalExpirations now with _ | total
  · simp [h]
  · simp only [h, Option.getD_some]
    split_ifs <;> first | rfl | omega

theorem timerfdCanRead_some (st : TimerFdState) (now : Nat) :
    timerfdCanRead (some st) now = decide (st.expirationsConsumed < st.expirations now) := by
  unfold timerfdCanRead TimerFdState.expirations
  rcases h : st.totalExpirations now with _ | total <;> simp [h]

/-- What gettime reports once the first expiration has passed: nothing
left, however long the interval. -/
theorem gettime_zero_after_first_expiry (st : TimerFdState) {now : Nat}
    (h : st.armedAtUs + st.initialUs ≤ now) :
    (sysTimerfdGettime (some st) now).itValue = ⟨0, 0⟩ := by
  have : st.initialUs - (now - st.armedAtUs) = 0 := by omega
  simp [sysTimerfdGettime, this, usToTimespec]

/-- The next POSIX expiration of a periodic timer is always ahead. -/
theorem lt_posixNextExpiry {first interval now : Nat} (hi : 0 < interval) (h : first ≤ now) :
    now < first + posixExpirations first interval now * interval := by
  have hn : ¬ now < first := by omega
  have hd := Nat.lt_div_mul_add (a := now - first) hi
  simp only [posixExpirations, hn, if_false, Nat.pos_iff_ne_zero.mp hi, Nat.add_mul, one_mul]
  omega

/-- `settime` with a deadline still ahead arms the entry for the POSIX
first expiration, with nothing consumed. -/
theorem settime_arms_ahead (entry : Option TimerFdState) (t0 flags : Nat) (v : Itimerspec)
    (hahead : if flags &&& tfdTimerAbstime ≠ 0 then t0 < v.itValue.toUs else 0 < v.itValue.toUs) :
    ∃ st, (sysTimerfdSettime entry t0 flags v).1 = some st ∧ st.initialUs ≠ 0 ∧
      st.armedAtUs + st.initialUs =
        posixFirstExpiry t0 (flags &&& tfdTimerAbstime ≠ 0) v.itValue.toUs ∧
      st.intervalUs = v.itInterval.toUs ∧ st.expirationsConsumed = 0 := by
  have hv : v.itValue.toUs ≠ 0 := by split_ifs at hahead <;> omega
  by_cases ha : flags &&& tfdTimerAbstime ≠ 0
  · rw [if_pos ha] at hahead
    refine ⟨⟨t0, v.itValue.toUs - t0, v.itInterval.toUs, 0⟩, ?_, by simp; omega, ?_, rfl, rfl⟩
    · simp [sysTimerfdSettime, hv, ha]
    · have hd : decide (flags &&& tfdTimerAbstime ≠ 0) = true := decide_eq_true ha
      simp only [posixFirstExpiry, hd, if_true]
      omega
  · rw [if_neg ha] at hahead
    refine ⟨⟨t0, v.itValue.toUs, v.itInterval.toUs, 0⟩, ?_, hv, ?_, rfl, rfl⟩
    · simp [sysTimerfdSettime, hv, ha]
    · simp [posixFirstExpiry, ha]

/-! ## Runs of reads -/

theorem runTimer_append (entry : Option TimerFdState) (pre post : List (Nat × TimerCall)) :
    runTimer entry (pre ++ post) =
      ((runTimer (runTimer entry pre).1 post).1,
        (runTimer entry pre).2 ++ (runTimer (runTimer entry pre).1 post).2) := by
  induction pre generalizing entry with
  | nil => rfl
  | cons c pre ih =>
    obtain ⟨now, c⟩ := c
    simp only [List.cons_append, runTimer, ih]

theorem readCounts_append (r r' : List TimerReply) :
    readCounts (r ++ r') = readCounts r ++ readCounts r' := by
  induction r with
  | nil => rfl
  | cons x r ih =>
    cases x with
    | read n =>
      simp only [List.cons_append, readCounts, ih]
      split_ifs <;> rfl
    | settime | canRead | gettime => simp only [List.cons_append, readCounts, ih]

theorem runTimer_length (entry : Option TimerFdState) (calls : List (Nat × TimerCall)) :
    (runTimer entry calls).2.length = calls.length := by
  induction calls generalizing entry with
  | nil => rfl
  | cons c calls ih => simp [runTimer, ih]

/-- The reply to the call that follows a run. -/
theorem runTimer_reply_after (entry : Option TimerFdState) (pre post : List (Nat × TimerCall))
    (now : Nat) (c : TimerCall) :
    (runTimer entry (pre ++ (now, c) :: post)).2[pre.length]? =
      some (c.apply (runTimer entry pre).1 now).2 := by
  rw [runTimer_append, List.getElem?_append_right (by rw [runTimer_length]), runTimer_length,
    Nat.sub_self]
  rfl

/-- A count a read hands out stays below the clock, so it is never taken
for `EAGAIN`. -/
theorem expirations_le_now (st : TimerFdState) (now : Nat) (h : st.initialUs ≠ 0) :
    st.expirations now ≤ now := by
  rw [expirations_eq_posix st now h]
  unfold posixExpirations
  split_ifs
  · exact Nat.zero_le _
  · omega
  · have := Nat.div_le_self (now - (st.armedAtUs + st.initialUs)) st.intervalUs
    omega

theorem expirations_mono (st : TimerFdState) (h : st.initialUs ≠ 0) {t t' : Nat} (ht : t ≤ t') :
    st.expirations t ≤ st.expirations t' := by
  rw [expirations_eq_posix st t h, expirations_eq_posix st t' h]
  exact posixExpirations_mono _ _ ht

/-- One call other than `settime` on an armed entry: it changes at most the
consumed count, and only a read that hands out a count raises it, by that
count, to what is counted at the call. -/
theorem apply_armed (st : TimerFdState) (now : Nat) (c : TimerCall) (hst : st.initialUs ≠ 0)
    (hc : c.isSettime = false) (hnow : now < eagain) :
    ∃ n, (c.apply (some st) now).1 =
        some { st with expirationsConsumed := st.expirationsConsumed + n } ∧
      readCounts [(c.apply (some st) now).2] = (if n = 0 then [] else [n]) ∧
      (n = 0 ∨ st.expirationsConsumed + n = st.expirations now) := by
  cases c with
  | settime => simp [TimerCall.isSettime] at hc
  | read =>
    have hle := expirations_le_now st now hst
    simp only [TimerCall.apply, timerfdRead_some]
    split_ifs with hlt
    · refine ⟨st.expirations now - st.expirationsConsumed, by simp; omega, ?_, by omega⟩
      simp only [readCounts]
      split_ifs <;> first | rfl | omega
    · exact ⟨0, by simp, by simp [readCounts], .inl rfl⟩
  | canRead => exact ⟨0, by simp [TimerCall.apply], by simp [TimerCall.apply, readCounts], .inl rfl⟩
  | gettime => exact ⟨0, by simp [TimerCall.apply], by simp [TimerCall.apply, readCounts], .inl rfl⟩

/-- A run of calls other than `settime` on an armed entry: its reads hand
out counts that add up to what it consumed, and what it consumed never
passes the count at a time no earlier than any call. -/
theorem run_reads_sum (st : TimerFdState) (calls : List (Nat × TimerCall)) (hst : st.initialUs ≠ 0)
    (hcalls : ∀ c ∈ calls, c.2.isSettime = false ∧ c.1 < eagain) :
    (runTimer (some st) calls).1 = some { st with
      expirationsConsumed := st.expirationsConsumed + (readCounts (runTimer (some st) calls).2).sum } ∧
    ∀ T, (∀ c ∈ calls, c.1 ≤ T) → st.expirationsConsumed ≤ st.expirations T →
      st.expirationsConsumed + (readCounts (runTimer (some st) calls).2).sum ≤ st.expirations T := by
  -- induction on the calls, carrying the entry, which differs only in its consumed count
  induction calls generalizing st with
  | nil => simp [runTimer, readCounts]
  | cons c calls ih =>
    obtain ⟨now, c⟩ := c
    obtain ⟨hc, hnow⟩ := hcalls (now, c) (by simp)
    obtain ⟨n, hstep, hread, hgrow⟩ := apply_armed st now c hst hc hnow
    obtain ⟨ih1, ih2⟩ := ih { st with expirationsConsumed := st.expirationsConsumed + n } hst
      (fun c' h' => hcalls c' (by simp [h']))
    have hsum : ∀ rest, (readCounts ((c.apply (some st) now).2 :: rest)).sum =
        n + (readCounts rest).sum := by
      intro rest
      rw [show (c.apply (some st) now).2 :: rest = [(c.apply (some st) now).2] ++ rest from rfl,
        readCounts_append, hread]
      split_ifs <;> simp_all
    simp only [runTimer, hstep, hsum]
    refine ⟨by rw [ih1]; simp [Nat.add_assoc], ?_⟩
    intro T hT h0
    have hle : now ≤ T := hT (now, c) (by simp)
    -- the step's own read consumed up to the count at its time, which is no later than T
    have hmid : st.expirationsConsumed + n ≤ st.expirations T := by
      rcases hgrow with h | h
      · omega
      · have := expirations_mono st hst hle
        omega
    have hrest := ih2 T (fun c' h' => hT c' (by simp [h'])) hmid
    change st.expirationsConsumed + n + _ ≤ st.expirations T at hrest
    omega

/-! ## What the reads of an armed timer hand out -/

/-- After `settime` with a deadline still ahead, a read hands out the POSIX
expirations that earlier reads did not, and `EAGAIN` exactly when there
are none; `timerfd_can_read` agrees. When the calls come at nondecreasing
times, what earlier reads handed out never passes the POSIX count. -/
theorem reads_hand_out_posix_expirations (entry : Option TimerFdState) (t0 flags : Nat)
    (v : Itimerspec)
    (hahead : if flags &&& tfdTimerAbstime ≠ 0 then t0 < v.itValue.toUs else 0 < v.itValue.toUs)
    (pre post : List (Nat × TimerCall)) (t : Nat)
    (hpre : ∀ c ∈ pre, c.2.isSettime = false ∧ c.1 < eagain) :
    let first := posixFirstExpiry t0 (flags &&& tfdTimerAbstime ≠ 0) v.itValue.toUs
    let armed := (sysTimerfdSettime entry t0 flags v).1
    let k := (readCounts (runTimer armed pre).2).sum
    let e := posixExpirations first v.itInterval.toUs t
    (runTimer armed (pre ++ (t, .read) :: post)).2[pre.length]? =
        some (.read (if k < e then e - k else eagain)) ∧
      (runTimer armed (pre ++ (t, .canRead) :: post)).2[pre.length]? =
        some (.canRead (decide (k < e))) ∧
      ((∀ c ∈ pre, c.1 ≤ t) → k ≤ e) := by
  intro first armed k e
  obtain ⟨st, hset, hinit, hfirst, hint, hcons⟩ := settime_arms_ahead entry t0 flags v hahead
  obtain ⟨hrun, hbound⟩ := run_reads_sum st pre hinit hpre
  have harmed : armed = some st := hset
  have hk : k = (readCounts (runTimer (some st) pre).2).sum := by rw [← harmed]
  -- the entry only ever counts the POSIX expirations of this timer
  have he0 : st.expirations t = e := by rw [expirations_eq_posix st t hinit, hfirst, hint]
  have he : ∀ c, ({ st with expirationsConsumed := c } : TimerFdState).expirations t = e :=
    fun _ => he0
  rw [harmed] at *
  refine ⟨?_, ?_, ?_⟩
  · rw [runTimer_reply_after, hrun]
    simp only [TimerCall.apply, timerfdRead_some, he, hcons, Nat.zero_add, ← hk]
    split_ifs <;> rfl
  · rw [runTimer_reply_after, hrun]
    simp only [TimerCall.apply, timerfdCanRead_some, he, hcons, Nat.zero_add, ← hk]
  · intro hT
    have := hbound t hT (by rw [hcons]; exact Nat.zero_le _)
    rw [hcons, Nat.zero_add, ← hk, he0] at this
    exact this

/-- Set at 0 to go off at 2 s and then every second: a read at 2.5 s takes
one expiration, and a read at 4.5 s the two since. -/
theorem reads_hand_out_two_after_one :
    (if 0 &&& tfdTimerAbstime ≠ 0 then 0 < (⟨2, 0⟩ : LocalTimespec).toUs
      else 0 < (⟨2, 0⟩ : LocalTimespec).toUs) ∧
    (∀ c ∈ [(2500000, TimerCall.read)], c.2.isSettime = false ∧ c.1 < eagain) ∧
    (runTimer (sysTimerfdSettime none 0 0 ⟨⟨1, 0⟩, ⟨2, 0⟩⟩).1
      ([(2500000, .read)] ++ [(4500000, .read)])).2[1]? = some (.read 2) :=
  have hahead : if 0 &&& tfdTimerAbstime ≠ 0 then 0 < (⟨2, 0⟩ : LocalTimespec).toUs
      else 0 < (⟨2, 0⟩ : LocalTimespec).toUs := by decide
  have hpre : ∀ c ∈ [(2500000, TimerCall.read)], c.2.isSettime = false ∧ c.1 < eagain := by
    decide
  ⟨hahead, hpre, (reads_hand_out_posix_expirations none 0 0 ⟨⟨1, 0⟩, ⟨2, 0⟩⟩ hahead
    [(2500000, .read)] [] 4500000 hpre).1.trans (by decide)⟩

/-! ## An absolute deadline that has passed -/

/-- An absolute deadline at or before the call arms the entry with
`initial_us = 0`. -/
theorem settime_past_absolute (entry : Option TimerFdState) (t0 flags : Nat) (v : Itimerspec)
    (habs : flags &&& tfdTimerAbstime ≠ 0) (hpos : 0 < v.itValue.toUs) (hpast : v.itValue.toUs ≤ t0) :
    (sysTimerfdSettime entry t0 flags v).1 = some ⟨t0, 0, v.itInterval.toUs, 0⟩ := by
  have hv : v.itValue.toUs ≠ 0 := by omega
  have hz : v.itValue.toUs - t0 = 0 := by omega
  simp [sysTimerfdSettime, hv, habs, hz]

/-- On an entry with `initial_us = 0` no call other than `settime` changes
anything, and none reports an expiration. -/
theorem apply_initialUs_eq_zero (st : TimerFdState) (now : Nat) (c : TimerCall)
    (h : st.initialUs = 0) (hc : c.isSettime = false) :
    (c.apply (some st) now).1 = some st ∧ (c.apply (some st) now).2 ≠ .canRead true ∧
      ∀ n, (c.apply (some st) now).2 = .read n → n = eagain := by
  have hz := expirations_of_initialUs_eq_zero st now h
  cases c with
  | settime => simp [TimerCall.isSettime] at hc
  | read => simp [TimerCall.apply, timerfdRead_some, hz]
  | canRead => simp [TimerCall.apply, timerfdCanRead_some, hz]
  | gettime => simp [TimerCall.apply]

/-- A run of calls other than `settime` on an entry with `initial_us = 0`
never reports an expiration. -/
theorem run_initialUs_eq_zero (st : TimerFdState) (h : st.initialUs = 0)
    (calls : List (Nat × TimerCall)) (hcalls : ∀ c ∈ calls, c.2.isSettime = false) :
    ∀ r ∈ (runTimer (some st) calls).2, r ≠ .canRead true ∧ ∀ n, r = .read n → n = eagain := by
  induction calls with
  | nil => simp [runTimer]
  | cons c calls ih =>
    obtain ⟨now, c⟩ := c
    obtain ⟨hfix, hready, hread⟩ := apply_initialUs_eq_zero st now c h (hcalls (now, c) (by simp))
    intro r hr
    simp only [runTimer, hfix, List.mem_cons] at hr
    rcases hr with rfl | hr
    · exact ⟨hready, hread⟩
    · exact ih (fun c' h' => hcalls c' (by simp [h'])) r hr

theorem absolute_deadline_in_past_never_expires (entry : Option TimerFdState) (t0 flags : Nat)
    (v : Itimerspec) (habs : flags &&& tfdTimerAbstime ≠ 0) (hpos : 0 < v.itValue.toUs)
    (hpast : v.itValue.toUs ≤ t0) (calls : List (Nat × TimerCall))
    (hcalls : ∀ c ∈ calls, c.2.isSettime = false) :
    (∀ t, t0 ≤ t →
      1 ≤ posixExpirations (posixFirstExpiry t0 true v.itValue.toUs) v.itInterval.toUs t) ∧
    ∀ r ∈ (runTimer (sysTimerfdSettime entry t0 flags v).1 calls).2,
      r ≠ .canRead true ∧ ∀ n, r = .read n → n = eagain := by
  refine ⟨fun t ht => one_le_posixExpirations (by simp [posixFirstExpiry]; omega), ?_⟩
  rw [settime_past_absolute entry t0 flags v habs hpos hpast]
  exact run_initialUs_eq_zero _ rfl calls hcalls

/-- Set at 5 s to go off at 1 s of uptime: at 6 s the read says `EAGAIN` and
at 7 s `timerfd_can_read` says no. -/
theorem absolute_deadline_in_past_stays_silent :
    1 &&& tfdTimerAbstime ≠ 0 ∧ 0 < (⟨1, 0⟩ : LocalTimespec).toUs ∧
      (⟨1, 0⟩ : LocalTimespec).toUs ≤ 5000000 ∧
      (∀ c ∈ [(6000000, TimerCall.read), (7000000, .canRead)], c.2.isSettime = false) ∧
      ((∀ t, 5000000 ≤ t →
        1 ≤ posixExpirations (posixFirstExpiry 5000000 true (⟨1, 0⟩ : LocalTimespec).toUs) 0 t) ∧
      ∀ r ∈ (runTimer (sysTimerfdSettime none 5000000 1 ⟨⟨0, 0⟩, ⟨1, 0⟩⟩).1
          [(6000000, .read), (7000000, .canRead)]).2,
        r ≠ .canRead true ∧ ∀ n, r = .read n → n = eagain) :=
  ⟨by decide, by decide, by decide, by decide,
    absolute_deadline_in_past_never_expires none 5000000 1 ⟨⟨0, 0⟩, ⟨1, 0⟩⟩
      (by decide) (by decide) (by decide) _ (by decide)⟩

end Akuma.Syscall
