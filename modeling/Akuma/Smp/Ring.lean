import Mathlib

/-!
# The MPSC inbox ring

`Ring` of `akuma-smp/src/ring.rs` under sequential consistency: each atomic
load, store and compare-exchange of `push` and `pop` is one step of the
thread that runs it, and a schedule says which thread takes the next step.
The local check of `push` is taken in the same step as its
compare-exchange, and the decoding of `pop` in the same step as its last
store. The `u32` indices wrap modulo `2 ^ 32`.

`push` loads `tail` and then `head`. Between the two loads the consumer may
pop what other producers pushed, so that `head` passes the `tail` the call
holds and `t.wrapping_sub(h)` wraps to `2 ^ 32 - 1`: the call then drops its
message, on a ring that never held more than one.
-/

namespace Akuma.Smp

/-- `RING_CAP`. -/
def ringCap : Nat := 8

/-- `u32::wrapping_add`. -/
def wrappingAdd (a b : Nat) : Nat := (a + b) % 2 ^ 32

/-- `u32::wrapping_sub`, of two `u32` values. -/
def wrappingSub (a b : Nat) : Nat := (a + 2 ^ 32 - b) % 2 ^ 32

/-- `MsgSlot`. -/
structure MsgSlot where
  ready : Nat
  word0 : Nat
  v0 : Nat
  v1 : Nat
  deriving DecidableEq, Repr

/-- `MsgSlot::new`. -/
def MsgSlot.new : MsgSlot := ⟨0, 0, 0, 0⟩

/-- `Msg`; its `from` field is `src` here. -/
structure Msg where
  kind : Nat
  src : Nat
  v0 : Nat
  v1 : Nat
  deriving DecidableEq, Repr

/-- `Ring`. -/
structure Ring where
  head : Nat
  tail : Nat
  slots : List MsgSlot
  deriving DecidableEq, Repr

namespace Ring

/-- `Ring::new`. -/
def new : Ring := ⟨0, 0, List.replicate ringCap MsgSlot.new⟩

/-- `self.slots[(i as usize) % RING_CAP]`. -/
def slot (r : Ring) (i : Nat) : MsgSlot := r.slots.getD (i % ringCap) MsgSlot.new

/-- A store into the slot of index `i`. -/
def modifySlot (r : Ring) (i : Nat) (f : MsgSlot → MsgSlot) : Ring :=
  { r with slots := r.slots.modify (i % ringCap) f }

/-- The slots claimed and not yet popped: `tail - head`, wrapping. -/
def claimed (r : Ring) : Nat := wrappingSub r.tail r.head

@[simp] theorem modifySlot_head (r : Ring) (i : Nat) (f : MsgSlot → MsgSlot) :
    (r.modifySlot i f).head = r.head := rfl

@[simp] theorem modifySlot_tail (r : Ring) (i : Nat) (f : MsgSlot → MsgSlot) :
    (r.modifySlot i f).tail = r.tail := rfl

@[simp] theorem length_modifySlot (r : Ring) (i : Nat) (f : MsgSlot → MsgSlot) :
    (r.modifySlot i f).slots.length = r.slots.length := List.length_modify _ _ _

theorem slot_modifySlot_self {r : Ring} (hlen : r.slots.length = ringCap) (i : Nat)
    (f : MsgSlot → MsgSlot) : (r.modifySlot i f).slot i = f (r.slot i) := by
  have hi : i % ringCap < r.slots.length := by
    rw [hlen]
    exact Nat.mod_lt _ (by decide)
  simp [slot, modifySlot, List.getD_eq_getElem?_getD, hi]

end Ring

/-! ## The two calls, one atomic step at a time -/

/-- Where a producer is inside `push`, with the locals it holds. -/
inductive PushPc where
  | loadTail
  | loadHead (t : Nat)
  | cas (t h : Nat)
  | storeWord0 (t : Nat)
  | storeV0 (t : Nat)
  | storeV1 (t : Nat)
  | storeReady (t : Nat)
  | ret (pushed : Bool)
  deriving DecidableEq, Repr

/-- One step of `push` of the message `m`. -/
def pushStep (m : Msg) (r : Ring) : PushPc → Ring × PushPc
  | .loadTail => (r, .loadHead r.tail)
  | .loadHead t => (r, .cas t r.head)
  | .cas t h =>
    if wrappingSub t h ≥ ringCap then (r, .ret false)
    -- the compare-exchange: it fails, and the loop starts over, if `tail` moved
    else if r.tail = t then ({ r with tail := wrappingAdd t 1 }, .storeWord0 t)
    else (r, .loadTail)
  | .storeWord0 t => (r.modifySlot t fun s => { s with word0 := (m.kind <<< 32) ||| m.src }, .storeV0 t)
  | .storeV0 t => (r.modifySlot t fun s => { s with v0 := m.v0 }, .storeV1 t)
  | .storeV1 t => (r.modifySlot t fun s => { s with v1 := m.v1 }, .storeReady t)
  | .storeReady t => (r.modifySlot t fun s => { s with ready := 1 }, .ret true)
  | .ret b => (r, .ret b)

/-- Where the consumer is inside `pop`, with the locals it holds. -/
inductive PopPc where
  | loadHead
  | loadTail (h : Nat)
  | loadReady (h : Nat)
  | loadWord0 (h : Nat)
  | loadV0 (h w0 : Nat)
  | loadV1 (h w0 v0 : Nat)
  | storeReady (h w0 v0 v1 : Nat)
  | storeHead (h w0 v0 v1 : Nat)
  | ret (msg : Option Msg)
  deriving DecidableEq, Repr

/-- One step of `pop`. -/
def popStep (r : Ring) : PopPc → Ring × PopPc
  | .loadHead => (r, .loadTail r.head)
  | .loadTail h => if h = r.tail then (r, .ret none) else (r, .loadReady h)
  | .loadReady h => if (r.slot h).ready = 0 then (r, .ret none) else (r, .loadWord0 h)
  | .loadWord0 h => (r, .loadV0 h (r.slot h).word0)
  | .loadV0 h w0 => (r, .loadV1 h w0 (r.slot h).v0)
  | .loadV1 h w0 v0 => (r, .storeReady h w0 v0 (r.slot h).v1)
  | .storeReady h w0 v0 v1 => (r.modifySlot h fun s => { s with ready := 0 }, .storeHead h w0 v0 v1)
  | .storeHead h w0 v0 v1 =>
    ({ r with head := wrappingAdd h 1 }, .ret (some ⟨(w0 >>> 32) % 2 ^ 32, w0 % 2 ^ 32, v0, v1⟩))
  | .ret m => (r, .ret m)

/-! ## Threads and schedules -/

/-- A producer thread: the messages it has still to push, in order, where
it is in the current `push`, and the results of the calls it finished. -/
structure Producer where
  pending : List Msg
  pc : PushPc
  results : List (Msg × Bool)
  deriving DecidableEq, Repr

/-- The consumer thread: where it is in the current `pop`, and what the
calls it finished returned. -/
structure Consumer where
  pc : PopPc
  popped : List (Option Msg)
  deriving DecidableEq, Repr

/-- One step of a producer; a finished call records its result and the
next message's call starts. -/
def Producer.step (p : Producer) (r : Ring) : Ring × Producer :=
  match p.pending with
  | [] => (r, p)
  | m :: rest =>
    match pushStep m r p.pc with
    | (r', .ret b) => (r', ⟨rest, .loadTail, p.results ++ [(m, b)]⟩)
    | (r', pc) => (r', { p with pc := pc })

/-- One step of the consumer; a finished call records what it returned and
the next call starts. -/
def Consumer.step (c : Consumer) (r : Ring) : Ring × Consumer :=
  match popStep r c.pc with
  | (r', .ret m) => (r', ⟨.loadHead, c.popped ++ [m]⟩)
  | (r', pc) => (r', { c with pc := pc })

/-- The ring shared by its producers and its consumer. -/
structure Sys where
  ring : Ring
  producers : List Producer
  consumer : Consumer
  deriving DecidableEq, Repr

/-- Which thread takes the next step. -/
inductive Thread where
  | producer (i : Nat)
  | consumer
  deriving DecidableEq, Repr

namespace Sys

/-- One step of one thread. -/
def step (s : Sys) : Thread → Sys
  | .producer i =>
    match s.producers[i]? with
    | none => s
    | some p => { s with ring := (p.step s.ring).1, producers := s.producers.set i (p.step s.ring).2 }
  | .consumer => { s with ring := (s.consumer.step s.ring).1, consumer := (s.consumer.step s.ring).2 }

/-- The states a schedule goes through, the first one included. -/
def trace (s : Sys) : List Thread → List Sys
  | [] => [s]
  | th :: ths => s :: (s.step th).trace ths

/-- The state a schedule ends in. -/
def run (s : Sys) : List Thread → Sys
  | [] => s
  | th :: ths => (s.step th).run ths

end Sys

/-! ## A thread running alone -/

namespace Producer

/-- `k` steps of a producer that no other thread interrupts. -/
def runAlone (p : Producer) (r : Ring) : Nat → Ring × Producer
  | 0 => (r, p)
  | k + 1 => (p.step r).2.runAlone (p.step r).1 k

/-- The rings those `k` steps go through, the first one included. -/
def ringsAlone (p : Producer) (r : Ring) : Nat → List Ring
  | 0 => [r]
  | k + 1 => r :: (p.step r).2.ringsAlone (p.step r).1 k

end Producer

namespace Consumer

/-- `k` steps of the consumer that no other thread interrupts. -/
def runAlone (c : Consumer) (r : Ring) : Nat → Ring × Consumer
  | 0 => (r, c)
  | k + 1 => (c.step r).2.runAlone (c.step r).1 k

/-- The rings those `k` steps go through, the first one included. -/
def ringsAlone (c : Consumer) (r : Ring) : Nat → List Ring
  | 0 => [r]
  | k + 1 => r :: (c.step r).2.ringsAlone (c.step r).1 k

end Consumer

namespace Ring

/-- A whole `push` of `m` that no other thread interrupts, on a ring with
room: `tail` claimed, the message written into its slot and published. -/
def afterPush (r : Ring) (m : Msg) : Ring :=
  ((({ r with tail := wrappingAdd r.tail 1 }.modifySlot r.tail fun s =>
    { s with word0 := (m.kind <<< 32) ||| m.src }).modifySlot r.tail fun s =>
    { s with v0 := m.v0 }).modifySlot r.tail fun s =>
    { s with v1 := m.v1 }).modifySlot r.tail fun s => { s with ready := 1 }

/-- A whole `pop` that no other thread interrupts, of a published message:
the slot released and `head` moved past it. -/
def afterPop (r : Ring) : Ring :=
  { r.modifySlot r.head (fun s => { s with ready := 0 }) with head := wrappingAdd r.head 1 }

/-- The message a slot holds, as `pop` decodes it. -/
def msgAt (r : Ring) (i : Nat) : Msg :=
  ⟨((r.slot i).word0 >>> 32) % 2 ^ 32, (r.slot i).word0 % 2 ^ 32, (r.slot i).v0, (r.slot i).v1⟩

end Ring

/-! ### One step at each point of a call -/

namespace Producer

variable (m : Msg) (rest : List Msg) (res : List (Msg × Bool)) (r : Ring)

theorem step_loadTail :
    (⟨m :: rest, .loadTail, res⟩ : Producer).step r = (r, ⟨m :: rest, .loadHead r.tail, res⟩) := rfl

theorem step_loadHead (t : Nat) :
    (⟨m :: rest, .loadHead t, res⟩ : Producer).step r = (r, ⟨m :: rest, .cas t r.head, res⟩) := rfl

/-- A step of a producer with a message to push is a step of its `push`;
stated for any `pc`, so that no step of `push` is unfolded to get it. -/
theorem step_cons (pc : PushPc) :
    (⟨m :: rest, pc, res⟩ : Producer).step r =
      match pushStep m r pc with
      | (r', .ret b) => (r', ⟨rest, .loadTail, res ++ [(m, b)]⟩)
      | (r', pc') => (r', ⟨m :: rest, pc', res⟩) := rfl

/-- The compare-exchange succeeds on a ring with room whose `tail` has not
moved. -/
theorem step_cas_claim {t h : Nat} (hroom : wrappingSub t h < ringCap) (ht : r.tail = t) :
    (⟨m :: rest, .cas t h, res⟩ : Producer).step r =
      ({ r with tail := wrappingAdd t 1 }, ⟨m :: rest, .storeWord0 t, res⟩) := by
  have hcas : pushStep m r (.cas t h) = ({ r with tail := wrappingAdd t 1 }, .storeWord0 t) := by
    rw [pushStep, if_neg (Nat.not_le.mpr hroom), if_pos ht]
  rw [step_cons, hcas]

/-- A full ring ends the call, which returns `false`. -/
theorem step_cas_full {t h : Nat} (hfull : ¬wrappingSub t h < ringCap) :
    (⟨m :: rest, .cas t h, res⟩ : Producer).step r = (r, ⟨rest, .loadTail, res ++ [(m, false)]⟩) := by
  have hcas : pushStep m r (.cas t h) = (r, .ret false) := by
    rw [pushStep, if_pos (Nat.not_lt.mp hfull)]
  rw [step_cons, hcas]

theorem step_storeWord0 (t : Nat) :
    (⟨m :: rest, .storeWord0 t, res⟩ : Producer).step r =
      (r.modifySlot t fun s => { s with word0 := (m.kind <<< 32) ||| m.src },
        ⟨m :: rest, .storeV0 t, res⟩) := rfl

theorem step_storeV0 (t : Nat) :
    (⟨m :: rest, .storeV0 t, res⟩ : Producer).step r =
      (r.modifySlot t fun s => { s with v0 := m.v0 }, ⟨m :: rest, .storeV1 t, res⟩) := rfl

theorem step_storeV1 (t : Nat) :
    (⟨m :: rest, .storeV1 t, res⟩ : Producer).step r =
      (r.modifySlot t fun s => { s with v1 := m.v1 }, ⟨m :: rest, .storeReady t, res⟩) := rfl

/-- Publishing the slot ends the call, which returns `true`. -/
theorem step_storeReady (t : Nat) :
    (⟨m :: rest, .storeReady t, res⟩ : Producer).step r =
      (r.modifySlot t fun s => { s with ready := 1 }, ⟨rest, .loadTail, res ++ [(m, true)]⟩) := rfl

end Producer

namespace Consumer

variable (popped : List (Option Msg)) (r : Ring)

theorem step_loadHead : (⟨.loadHead, popped⟩ : Consumer).step r = (r, ⟨.loadTail r.head, popped⟩) := rfl

theorem step_loadTail {h : Nat} (hne : h ≠ r.tail) :
    (⟨.loadTail h, popped⟩ : Consumer).step r = (r, ⟨.loadReady h, popped⟩) := by
  simp [step, popStep, hne]

theorem step_loadReady {h : Nat} (hready : (r.slot h).ready ≠ 0) :
    (⟨.loadReady h, popped⟩ : Consumer).step r = (r, ⟨.loadWord0 h, popped⟩) := by
  simp [step, popStep, hready]

theorem step_loadWord0 (h : Nat) :
    (⟨.loadWord0 h, popped⟩ : Consumer).step r = (r, ⟨.loadV0 h (r.slot h).word0, popped⟩) := rfl

theorem step_loadV0 (h w0 : Nat) :
    (⟨.loadV0 h w0, popped⟩ : Consumer).step r = (r, ⟨.loadV1 h w0 (r.slot h).v0, popped⟩) := rfl

theorem step_loadV1 (h w0 v0 : Nat) :
    (⟨.loadV1 h w0 v0, popped⟩ : Consumer).step r =
      (r, ⟨.storeReady h w0 v0 (r.slot h).v1, popped⟩) := rfl

theorem step_storeReady (h w0 v0 v1 : Nat) :
    (⟨.storeReady h w0 v0 v1, popped⟩ : Consumer).step r =
      (r.modifySlot h fun s => { s with ready := 0 }, ⟨.storeHead h w0 v0 v1, popped⟩) := rfl

/-- Moving `head` ends the call, which returns the message. -/
theorem step_storeHead (h w0 v0 v1 : Nat) :
    (⟨.storeHead h w0 v0 v1, popped⟩ : Consumer).step r =
      ({ r with head := wrappingAdd h 1 },
        ⟨.loadHead, popped ++ [some ⟨(w0 >>> 32) % 2 ^ 32, w0 % 2 ^ 32, v0, v1⟩]⟩) := rfl

end Consumer

/-! ### Whole calls -/

/-- Seven steps make a whole `push` on a ring with room. -/
theorem Producer.runAlone_push {r : Ring} (m : Msg) (rest : List Msg) (res : List (Msg × Bool))
    (hroom : wrappingSub r.tail r.head < ringCap) :
    (⟨m :: rest, .loadTail, res⟩ : Producer).runAlone r 7 =
      (r.afterPush m, ⟨rest, .loadTail, res ++ [(m, true)]⟩) := by
  simp only [Producer.runAlone, Producer.step_loadTail, Producer.step_loadHead,
    Producer.step_cas_claim m rest res r hroom rfl, Producer.step_storeWord0,
    Producer.step_storeV0, Producer.step_storeV1, Producer.step_storeReady]
  rfl

/-- During it `head` stays, and `tail` moves by the one claim. -/
theorem Producer.ringsAlone_push {r : Ring} (m : Msg) (rest : List Msg) (res : List (Msg × Bool))
    (hroom : wrappingSub r.tail r.head < ringCap) :
    ∀ r' ∈ (⟨m :: rest, .loadTail, res⟩ : Producer).ringsAlone r 7,
      r'.head = r.head ∧ (r'.tail = r.tail ∨ r'.tail = wrappingAdd r.tail 1) := by
  simp only [Producer.ringsAlone, Producer.step_loadTail, Producer.step_loadHead,
    Producer.step_cas_claim m rest res r hroom rfl, Producer.step_storeWord0,
    Producer.step_storeV0, Producer.step_storeV1, Producer.step_storeReady]
  simp

/-- Eight steps make a whole `pop` of a published message. -/
theorem Consumer.runAlone_pop {r : Ring} (popped : List (Option Msg)) (hne : r.head ≠ r.tail)
    (hready : (r.slot r.head).ready ≠ 0) :
    (⟨.loadHead, popped⟩ : Consumer).runAlone r 8 = (r.afterPop, ⟨.loadHead, popped ++ [some (r.msgAt r.head)]⟩) := by
  simp only [Consumer.runAlone, Consumer.step_loadHead, Consumer.step_loadTail popped r hne,
    Consumer.step_loadReady popped r hready, Consumer.step_loadWord0, Consumer.step_loadV0,
    Consumer.step_loadV1, Consumer.step_storeReady, Consumer.step_storeHead]
  rfl

/-- During it `tail` stays, and `head` moves past the one slot. -/
theorem Consumer.ringsAlone_pop {r : Ring} (popped : List (Option Msg)) (hne : r.head ≠ r.tail)
    (hready : (r.slot r.head).ready ≠ 0) :
    ∀ r' ∈ (⟨.loadHead, popped⟩ : Consumer).ringsAlone r 8,
      r'.tail = r.tail ∧ (r'.head = r.head ∨ r'.head = wrappingAdd r.head 1) := by
  simp only [Consumer.ringsAlone, Consumer.step_loadHead, Consumer.step_loadTail popped r hne,
    Consumer.step_loadReady popped r hready, Consumer.step_loadWord0, Consumer.step_loadV0,
    Consumer.step_loadV1, Consumer.step_storeReady, Consumer.step_storeHead]
  simp

namespace Sys

/-- A producer's step takes its own state and the ring, and nothing else. -/
theorem step_producer {s : Sys} {i : Nat} {p : Producer} (hp : s.producers[i]? = some p) :
    s.step (.producer i) =
      { s with ring := (p.step s.ring).1, producers := s.producers.set i (p.step s.ring).2 } := by
  simp [step, hp]

theorem run_append (s : Sys) (l₁ l₂ : List Thread) : s.run (l₁ ++ l₂) = (s.run l₁).run l₂ := by
  induction l₁ generalizing s with
  | nil => rfl
  | cons th l₁ ih => exact ih (s.step th)

theorem mem_trace_append {s s' : Sys} {l₁ l₂ : List Thread} (h : s' ∈ s.trace (l₁ ++ l₂)) :
    s' ∈ s.trace l₁ ∨ s' ∈ (s.run l₁).trace l₂ := by
  induction l₁ generalizing s with
  | nil => exact Or.inr h
  | cons th l₁ ih =>
    rcases List.mem_cons.mp h with rfl | h
    · exact Or.inl List.mem_cons_self
    · exact (ih h).imp (List.mem_cons_of_mem _) id

/-- Producer `i` running alone for `k` steps. -/
theorem run_producer_alone {i : Nat} (k : Nat) :
    ∀ {s : Sys} {p : Producer}, s.producers[i]? = some p →
      s.run (List.replicate k (.producer i)) =
        { s with ring := (p.runAlone s.ring k).1, producers := s.producers.set i (p.runAlone s.ring k).2 } := by
  induction k with
  | zero =>
    intro s p hp
    obtain ⟨hi, rfl⟩ := List.getElem?_eq_some_iff.mp hp
    simp [run, Producer.runAlone]
  | succ k ih =>
    intro s p hp
    have hi : i < s.producers.length := (List.getElem?_eq_some_iff.mp hp).1
    rw [List.replicate_succ, run, step_producer hp, ih (p := (p.step s.ring).2) (by simp [hi])]
    simp [Producer.runAlone]

theorem trace_producer_alone {i : Nat} (k : Nat) :
    ∀ {s : Sys} {p : Producer}, s.producers[i]? = some p →
      ∀ s' ∈ s.trace (List.replicate k (.producer i)), s'.ring ∈ p.ringsAlone s.ring k := by
  induction k with
  | zero =>
    intro s p hp s' hs'
    simp_all [trace, Producer.ringsAlone]
  | succ k ih =>
    intro s p hp s' hs'
    have hi : i < s.producers.length := (List.getElem?_eq_some_iff.mp hp).1
    rw [List.replicate_succ, trace, step_producer hp] at hs'
    rcases List.mem_cons.mp hs' with rfl | hs'
    · exact List.mem_cons_self
    · exact List.mem_cons_of_mem _ (ih (p := (p.step s.ring).2) (by simp [hi]) s' hs')

/-- The consumer running alone for `k` steps. -/
theorem run_consumer_alone (k : Nat) :
    ∀ {s : Sys}, s.run (List.replicate k .consumer) =
      { s with ring := (s.consumer.runAlone s.ring k).1, consumer := (s.consumer.runAlone s.ring k).2 } := by
  induction k with
  | zero => intro s; rfl
  | succ k ih =>
    intro s
    rw [List.replicate_succ, run, ih]
    rfl

theorem trace_consumer_alone (k : Nat) :
    ∀ {s : Sys}, ∀ s' ∈ s.trace (List.replicate k .consumer), s'.ring ∈ s.consumer.ringsAlone s.ring k := by
  induction k with
  | zero =>
    intro s s' hs'
    simp_all [trace, Consumer.ringsAlone]
  | succ k ih =>
    intro s s' hs'
    rw [List.replicate_succ, trace] at hs'
    rcases List.mem_cons.mp hs' with rfl | hs'
    · exact List.mem_cons_self
    · exact List.mem_cons_of_mem _ (ih s' hs')

end Sys

/-! ## Index arithmetic -/

theorem wrappingSub_self (x : Nat) : wrappingSub x x = 0 := by
  unfold wrappingSub
  omega

theorem wrappingSub_wrappingAdd_one {x : Nat} (hx : x < 2 ^ 32) : wrappingSub (wrappingAdd x 1) x = 1 := by
  unfold wrappingSub wrappingAdd
  omega

theorem wrappingAdd_one_ne (x : Nat) : x ≠ wrappingAdd x 1 := by
  unfold wrappingAdd
  omega

/-- The consumer one past a `tail` read earlier: the distance wraps. -/
theorem wrappingSub_wrappingAdd_one_right {x : Nat} (hx : x < 2 ^ 32) :
    wrappingSub x (wrappingAdd x 1) = 2 ^ 32 - 1 := by
  unfold wrappingSub wrappingAdd
  omega

/-! ## A dropped message -/

theorem claimed_le_one_of {r : Ring} {x : Nat} (hx : x < 2 ^ 32)
    (h : (r.head = x ∧ (r.tail = x ∨ r.tail = wrappingAdd x 1)) ∨
      (r.tail = wrappingAdd x 1 ∧ (r.head = x ∨ r.head = wrappingAdd x 1))) : r.claimed ≤ 1 := by
  unfold Ring.claimed
  rcases h with ⟨hh, ht | ht⟩ | ⟨ht, hh | hh⟩ <;> rw [hh, ht]
  · rw [wrappingSub_self x]; omega
  · rw [wrappingSub_wrappingAdd_one hx]
  · rw [wrappingSub_wrappingAdd_one hx]
  · rw [wrappingSub_self (wrappingAdd x 1)]; omega

/-- A `push` loads `tail`; another producer's whole `push` and the
consumer's whole `pop` run; the call then loads a `head` one past its
`tail`, and drops its message, though the ring never held more than one. -/
theorem push_drops_on_nearly_empty_ring {x : Nat} (hx : x < 2 ^ 32) {slots : List MsgSlot}
    (hslots : slots.length = ringCap) (a b : Msg) (as bs : List Msg) (ra rb : List (Msg × Bool))
    (popped : List (Option Msg)) :
    let s : Sys := ⟨⟨x, x, slots⟩, [⟨a :: as, .loadTail, ra⟩, ⟨b :: bs, .loadTail, rb⟩], ⟨.loadHead, popped⟩⟩
    let sched := .producer 0 :: List.replicate 7 (.producer 1) ++ List.replicate 8 .consumer ++
      [.producer 0, .producer 0]
    (s.run sched).producers[0]? = some ⟨as, .loadTail, ra ++ [(a, false)]⟩ ∧
      ∀ s' ∈ s.trace sched, s'.ring.claimed ≤ 1 := by
  intro s sched
  set r₀ : Ring := ⟨x, x, slots⟩
  -- the first producer loads `tail`
  set s₁ : Sys := ⟨r₀, [⟨a :: as, .loadHead x, ra⟩, ⟨b :: bs, .loadTail, rb⟩], ⟨.loadHead, popped⟩⟩
  have hs₁ : s.step (.producer 0) = s₁ := rfl
  -- the second producer's whole push
  have hroom : wrappingSub r₀.tail r₀.head < ringCap := by
    show wrappingSub x x < ringCap
    rw [wrappingSub_self x]
    decide
  set r₁ := r₀.afterPush b
  set s₂ : Sys := ⟨r₁, [⟨a :: as, .loadHead x, ra⟩, ⟨bs, .loadTail, rb ++ [(b, true)]⟩], ⟨.loadHead, popped⟩⟩
  have hs₂ : s₁.run (List.replicate 7 (.producer 1)) = s₂ := by
    rw [Sys.run_producer_alone 7 (p := ⟨b :: bs, .loadTail, rb⟩) rfl, Producer.runAlone_push _ _ _ hroom]
    rfl
  -- the consumer's whole pop of it
  have hne : r₁.head ≠ r₁.tail := wrappingAdd_one_ne x
  have hready : (r₁.slot r₁.head).ready ≠ 0 := by
    simp [r₁, Ring.afterPush, Ring.slot_modifySlot_self, hslots, r₀]
  set r₂ := r₁.afterPop
  set s₃ : Sys := ⟨r₂, [⟨a :: as, .loadHead x, ra⟩, ⟨bs, .loadTail, rb ++ [(b, true)]⟩],
    ⟨.loadHead, popped ++ [some (r₁.msgAt r₁.head)]⟩⟩
  have hs₃ : s₂.run (List.replicate 8 .consumer) = s₃ := by
    have hc : s₂.consumer = ⟨.loadHead, popped⟩ := rfl
    rw [Sys.run_consumer_alone 8, hc, show s₂.ring = r₁ from rfl, Consumer.runAlone_pop _ hne hready]
  -- the first producer loads `head`, one past its `tail`, and drops its message
  have hfull : ¬wrappingSub x r₂.head < ringCap := by
    show ¬wrappingSub x (wrappingAdd x 1) < ringCap
    rw [wrappingSub_wrappingAdd_one_right hx]
    decide
  have hs₄ : s₃.step (.producer 0) = { s₃ with producers := [⟨a :: as, .cas x r₂.head, ra⟩,
      ⟨bs, .loadTail, rb ++ [(b, true)]⟩] } := rfl
  set s₅ : Sys := { s₃ with producers := [⟨as, .loadTail, ra ++ [(a, false)]⟩,
      ⟨bs, .loadTail, rb ++ [(b, true)]⟩] }
  have hs₅ : (s₃.step (.producer 0)).step (.producer 0) = s₅ := by
    rw [hs₄, Sys.step_producer (p := ⟨a :: as, .cas x r₂.head, ra⟩) rfl,
      Producer.step_cas_full _ _ _ _ hfull]
    rfl
  have hdrop : (s₃.run [.producer 0, .producer 0]).producers[0]? = some ⟨as, .loadTail, ra ++ [(a, false)]⟩ := by
    rw [Sys.run, Sys.run, Sys.run, hs₅]
    rfl
  have hs₁₂ : s.run (.producer 0 :: List.replicate 7 (.producer 1)) = s₂ := by
    rw [Sys.run, hs₁, hs₂]
  refine ⟨by rw [Sys.run_append, Sys.run_append, hs₁₂, hs₃, hdrop], fun s' hs' => ?_⟩
  -- the rings along the run: `head` and `tail` stay within one of `x`
  rcases Sys.mem_trace_append hs' with hs' | hs'
  · rcases Sys.mem_trace_append hs' with hs' | hs'
    · rw [Sys.trace, hs₁] at hs'
      rcases List.mem_cons.mp hs' with rfl | hs'
      · exact claimed_le_one_of hx (Or.inl ⟨rfl, Or.inl rfl⟩)
      · obtain ⟨hh, ht⟩ :=
          Producer.ringsAlone_push _ _ _ hroom _ (Sys.trace_producer_alone 7 (s := s₁) rfl s' hs')
        exact claimed_le_one_of hx (Or.inl ⟨hh, ht⟩)
    · rw [hs₁₂] at hs'
      obtain ⟨ht, hh⟩ := Consumer.ringsAlone_pop _ hne hready _ (Sys.trace_consumer_alone 8 s' hs')
      exact claimed_le_one_of hx (Or.inr ⟨ht, hh⟩)
  · rw [Sys.run_append, hs₁₂, hs₃] at hs'
    -- the last two steps only load
    have hring : s'.ring = r₂ := by
      rw [Sys.trace, Sys.trace, Sys.trace, hs₅] at hs'
      rcases List.mem_cons.mp hs' with rfl | hs'
      · rfl
      rcases List.mem_cons.mp hs' with rfl | hs'
      · rw [hs₄]
      rw [List.mem_singleton.mp hs']
    rw [hring]
    exact claimed_le_one_of hx (Or.inr ⟨rfl, Or.inr rfl⟩)

theorem push_drops_on_new_ring :
    let s : Sys := ⟨⟨0, 0, List.replicate ringCap MsgSlot.new⟩,
      [⟨[⟨1, 1, 0, 0⟩], .loadTail, []⟩, ⟨[⟨2, 2, 4096, 400⟩], .loadTail, []⟩], ⟨.loadHead, []⟩⟩
    let sched := .producer 0 :: List.replicate 7 (.producer 1) ++ List.replicate 8 .consumer ++
      [.producer 0, .producer 0]
    (s.run sched).producers[0]? = some ⟨[], .loadTail, [] ++ [(⟨1, 1, 0, 0⟩, false)]⟩ ∧
      ∀ s' ∈ s.trace sched, s'.ring.claimed ≤ 1 :=
  @push_drops_on_nearly_empty_ring 0 (by decide) (List.replicate ringCap MsgSlot.new) List.length_replicate
    ⟨1, 1, 0, 0⟩ ⟨2, 2, 4096, 400⟩ [] [] [] [] []

end Akuma.Smp
