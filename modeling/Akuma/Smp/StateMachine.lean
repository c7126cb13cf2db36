import Mathlib

/-!
# One core's state machine

`CoreStateMachine` of `akuma-smp/src/state_machine.rs`: the decisions of one
core in the debt-based memory protocol and in peer liveness, as a function
from an event to the commands it emits. `step` is the source's `step`, the
closure `emit` collecting into a list in emission order.

Machine integers: `free_pages` and range lengths are `u64`, and the two
additions of the source (`Repaid` and `Borrowed`) wrap modulo `2 ^ 64` as a
release build computes them (`addU64`); the subtractions are guarded, or
saturating for `Consumed`. The stale counter saturates at `u32::MAX`.

The two fixed arrays of `MAX_CORES` entries are lists. Indexing
`self.debts[c]` for `c ≥ MAX_CORES` would panic in the `Pressure` arm; that
needs `num_cores > MAX_CORES`, and there the model reads an empty record and
writes nothing.

Peer liveness is stated against `Watch`, the history of one peer's
heartbeat values in the terms of a specification: the running maximum and
the number of consecutive observations that did not exceed it.
-/

namespace Akuma.Smp

/-- `MAX_CORES`. -/
def maxCores : Nat := 8

/-- `MAX_DEBT_RANGES`. -/
def maxDebtRanges : Nat := 4

/-- `DEAD_AFTER_STALE`. -/
def deadAfterStale : Nat := 3

/-- `Range`. -/
structure Range where
  base : Nat
  len : Nat
  deriving DecidableEq, Repr

/-- `Event`; a `from` field is `src` here, and a `to` field `dest`. -/
inductive Event where
  | tick
  | pressure (src : Nat)
  | repaid (src : Nat) (range : Range)
  | borrowed (creditor : Nat) (range : Range)
  | consumed (pages : Nat)
  | peerHeartbeat (core value : Nat)
  deriving DecidableEq, Repr

/-- `Command`. -/
inductive Command where
  | sendPressure (dest : Nat)
  | repay (creditor : Nat) (range : Range)
  | accept (src : Nat) (range : Range)
  | peerDown (core : Nat)
  | peerUp (core : Nat)
  deriving DecidableEq, Repr

/-- `CreditorDebt`: `MAX_DEBT_RANGES` slots, the first `count` in use. -/
structure CreditorDebt where
  ranges : List Range
  count : Nat
  deriving DecidableEq, Repr

/-- `CreditorDebt::new`. -/
def CreditorDebt.new : CreditorDebt := ⟨List.replicate maxDebtRanges ⟨0, 0⟩, 0⟩

/-- `PeerLiveness`. -/
structure PeerLiveness where
  lastHb : Nat
  stale : Nat
  declaredDead : Bool
  deriving DecidableEq, Repr

/-- `PeerLiveness::new`. -/
def PeerLiveness.new : PeerLiveness := ⟨0, 0, false⟩

/-- `CoreStateMachine`. -/
structure CoreStateMachine where
  coreId : Nat
  numCores : Nat
  freePages : Nat
  lowWatermark : Nat
  debts : List CreditorDebt
  signaled : Bool
  peers : List PeerLiveness
  deriving DecidableEq, Repr

/-- `u64` addition, wrapping. -/
def addU64 (a b : Nat) : Nat := (a + b) % 2 ^ 64

/-! ## The `PeerHeartbeat` arm on one peer -/

/-- One observation `value` of peer `core`'s heartbeat: the new record and
the commands emitted. -/
def PeerLiveness.observe (p : PeerLiveness) (core value : Nat) : PeerLiveness × List Command :=
  if value > p.lastHb then
    (⟨value, 0, false⟩, if p.declaredDead then [.peerUp core] else [])
  else
    let stale := min (p.stale + 1) (2 ^ 32 - 1)
    if stale ≥ deadAfterStale ∧ !p.declaredDead then (⟨p.lastHb, stale, true⟩, [.peerDown core])
    else (⟨p.lastHb, stale, p.declaredDead⟩, [])

/-! ## The `Pressure` arm -/

/-- The state of the inner loop of the `Pressure` arm over the debts to one
creditor: the slots being compacted in place, the number kept so far, the
free pages and the ranges repaid so far. -/
structure Compaction where
  ranges : List Range
  kept : Nat
  freePages : Nat
  repaid : List Range
  deriving DecidableEq, Repr

/-- Turn `i` of the inner loop: repay the range if it can be afforded,
otherwise move it down to slot `kept`. -/
def Compaction.step (s : Compaction) (i : Nat) : Compaction :=
  let range := s.ranges.getD i ⟨0, 0⟩
  if s.freePages ≥ range.len then
    { s with freePages := s.freePages - range.len, repaid := s.repaid ++ [range] }
  else { s with ranges := s.ranges.set s.kept range, kept := s.kept + 1 }

/-- The inner loop over the first `count` slots. -/
def compact (ranges : List Range) (count freePages : Nat) : Compaction :=
  (List.range count).foldl Compaction.step ⟨ranges, 0, freePages, []⟩

/-- After `j` turns of the inner loop over the slots `ranges` with `free`
pages: the slots from `j` on are untouched, the ranges kept so far and
those repaid are the first `j` slots rearranged, and the free pages went
exactly into what was repaid. -/
structure Compaction.Inv (ranges : List Range) (free j : Nat) (s : Compaction) : Prop where
  kept_le : s.kept ≤ j
  length_eq : s.ranges.length = ranges.length
  rest_eq : ∀ i, j ≤ i → s.ranges[i]? = ranges[i]?
  perm : List.Perm (s.ranges.take s.kept ++ s.repaid) (ranges.take j)
  free_eq : s.freePages + (s.repaid.map Range.len).sum = free

theorem Compaction.Inv.step {ranges : List Range} {free j : Nat} {s : Compaction}
    (h : Compaction.Inv ranges free j s) (hj : j < ranges.length) :
    Compaction.Inv ranges free (j + 1) (s.step j) := by
  obtain ⟨hkept, hlen, hrest, hperm, hfree⟩ := h
  -- slot `j` is read before anything is written to it
  have hread : s.ranges.getD j ⟨0, 0⟩ = ranges[j] := by
    rw [List.getD_eq_getElem?_getD, hrest j le_rfl, List.getElem?_eq_getElem hj, Option.getD_some]
  have htake : ranges.take (j + 1) = ranges.take j ++ [ranges[j]] := by
    rw [List.take_add_one, List.getElem?_eq_getElem hj, Option.toList_some]
  simp only [Compaction.step, hread]
  split_ifs with hle
  · -- repaid: the range leaves the slots for the repaid list
    refine ⟨by dsimp only; omega, hlen, fun i hi => hrest i (by omega), ?_, ?_⟩
    · rw [htake, ← List.append_assoc]
      exact hperm.append_right _
    · simp only [List.map_append, List.sum_append, List.map_cons, List.map_nil, List.sum_cons,
        List.sum_nil]
      omega
  · -- kept: the range moves down to slot `kept`, below every slot still to be read
    have hk : s.kept < s.ranges.length := by omega
    have hset : (s.ranges.set s.kept ranges[j]).take (s.kept + 1) = s.ranges.take s.kept ++ [ranges[j]] := by
      rw [List.take_add_one, List.take_set_of_le le_rfl, List.getElem?_set_self hk, Option.toList_some]
    refine ⟨by dsimp only; omega, by rw [List.length_set, hlen], fun i hi => ?_, ?_, hfree⟩
    · rw [List.getElem?_set_ne (by omega), hrest i (by omega)]
    · rw [hset, htake]
      refine List.Perm.trans ?_ (hperm.append_right [ranges[j]])
      rw [List.append_assoc, List.append_assoc]
      exact List.perm_append_comm.append_left _

/-- The inner loop over the first `count` slots rearranges them into those
kept and those repaid, and pays for the repaid out of the free pages. -/
theorem compact_inv {ranges : List Range} {count : Nat} (free : Nat) (hcount : count ≤ ranges.length) :
    Compaction.Inv ranges free count (compact ranges count free) := by
  unfold compact
  induction count with
  | zero => exact ⟨le_rfl, rfl, fun _ _ => rfl, by simp, by simp⟩
  | succ j ih =>
    rw [List.range_succ, List.foldl_append, List.foldl_cons, List.foldl_nil]
    exact (ih (by omega)).step (by omega)

/-- A creditor's record as the source's array has it: `MAX_DEBT_RANGES`
slots, at most all of them in use. -/
def CreditorDebt.Fits (d : CreditorDebt) : Prop :=
  d.ranges.length = maxDebtRanges ∧ d.count ≤ maxDebtRanges

/-- The range of a `Repay` to `creditor`. -/
def Command.repaidTo (creditor : Nat) : Command → Option Range
  | .repay c r => if c = creditor then some r else none
  | .sendPressure _ | .accept _ _ | .peerDown _ | .peerUp _ => none

/-- The pages a command hands back: a `Repay`'s range length. -/
def Command.repaidLen : Command → Nat
  | .repay _ r => r.len
  | .sendPressure _ | .accept _ _ | .peerDown _ | .peerUp _ => 0

theorem getD_set_eq_ite {α : Type} (l : List α) (i j : Nat) (x d : α) :
    (l.set i x).getD j d = if i = j ∧ i < l.length then x else l.getD j d := by
  simp only [List.getD_eq_getElem?_getD, List.getElem?_set]
  -- the one case left sets past the end: `i = j` out of range
  split_ifs <;> simp_all
  omega

/-! ## Peer liveness -/

/-- Whether a command is `PeerDown` or `PeerUp` about `core`. -/
def Command.isLivenessOf (core : Nat) : Command → Bool
  | .peerDown c => c == core
  | .peerUp c => c == core
  | _ => false

/-- The value of an event if it is a heartbeat of `core`. -/
def Event.heartbeatOf (core : Nat) : Event → Option Nat
  | .peerHeartbeat c v => if c = core then some v else none
  | _ => none

/-- The values of the heartbeats of `core` among `evs`, in order. -/
def heartbeatsOf (core : Nat) (evs : List Event) : List Nat := evs.filterMap (Event.heartbeatOf core)

theorem Event.eq_of_heartbeatOf {core v : Nat} {ev : Event} (h : ev.heartbeatOf core = some v) :
    ev = .peerHeartbeat core v := by
  cases ev <;> simp_all [Event.heartbeatOf]

/-- A record's observation emits liveness commands about its own core only. -/
theorem PeerLiveness.observe_filter (p : PeerLiveness) (core v c : Nat) :
    (p.observe core v).2.filter (Command.isLivenessOf c) = if core = c then (p.observe core v).2 else [] := by
  simp only [PeerLiveness.observe]
  split_ifs <;> simp_all [Command.isLivenessOf]

/-- One peer's heartbeat history in the terms of the specification: the
running maximum of the values observed (0 before any), and the number of
consecutive observations since it last grew. -/
structure Watch where
  runMax : Nat
  run : Nat
  deriving DecidableEq, Repr

namespace Watch

/-- No observation yet. -/
def start : Watch := ⟨0, 0⟩

/-- One more observation. -/
def observe (w : Watch) (v : Nat) : Watch :=
  if w.runMax < v then ⟨v, 0⟩ else ⟨w.runMax, w.run + 1⟩

/-- The history after the observations `vs`. -/
def after (w : Watch) (vs : List Nat) : Watch := vs.foldl observe w

/-- What an observation `v` of `core` is to emit: `PeerDown` at the
`DEAD_AFTER_STALE`-th consecutive observation that does not exceed the
running maximum, `PeerUp` at the first one that exceeds it after that. -/
def signal (w : Watch) (core v : Nat) : List Command :=
  if w.runMax < v then (if deadAfterStale ≤ w.run then [.peerUp core] else [])
  else if w.run + 1 = deadAfterStale then [.peerDown core] else []

/-- What the observations `vs` of `core` are to emit, in order. -/
def signals (core : Nat) : Watch → List Nat → List Command
  | _, [] => []
  | w, v :: vs => w.signal core v ++ signals core (w.observe v) vs

end Watch

/-- `k` liveness commands about `core`, alternating from `PeerDown`. -/
def alternating (core k : Nat) : List Command :=
  (List.range k).map fun i => if i % 2 = 0 then .peerDown core else .peerUp core

/-- The observations of one peer emit alternating commands, an odd number
of them exactly while the peer is `DEAD_AFTER_STALE` or more observations
past its last advance; by induction on the observations. -/
theorem Watch.signals_alternating (core : Nat) :
    ∀ (vs : List Nat) (w : Watch) (k : Nat), (k % 2 = 1 ↔ deadAfterStale ≤ w.run) →
      ∃ k', alternating core k ++ w.signals core vs = alternating core k' ∧
        (k' % 2 = 1 ↔ deadAfterStale ≤ (w.after vs).run)
  | [], w, k, hk => ⟨k, by simp [Watch.signals], hk⟩
  | v :: vs, w, k, hk => by
    -- the commands of `v` extend the alternation, then the rest follows
    have hstep : ∃ k₁, alternating core k ++ w.signal core v = alternating core k₁ ∧
        (k₁ % 2 = 1 ↔ deadAfterStale ≤ (w.observe v).run) := by
      have hsucc : alternating core (k + 1) =
          alternating core k ++ [if k % 2 = 0 then .peerDown core else .peerUp core] := by
        simp [alternating, List.range_succ]
      unfold Watch.signal Watch.observe
      unfold deadAfterStale at hk ⊢
      split_ifs with hv hrun hrun'
      · exact ⟨k + 1, by rw [hsucc, if_neg (by omega)], by dsimp only; omega⟩
      · exact ⟨k, by simp, by dsimp only; omega⟩
      · exact ⟨k + 1, by rw [hsucc, if_pos (by omega)], by dsimp only; omega⟩
      · exact ⟨k, by simp, by dsimp only; omega⟩
    obtain ⟨k₁, h₁, hk₁⟩ := hstep
    obtain ⟨k', h', hk'⟩ := signals_alternating core vs (w.observe v) k₁ hk₁
    exact ⟨k', by rw [Watch.signals, ← List.append_assoc, h₁, h'], hk'⟩

/-- A peer record that keeps a history: the last heartbeat is the running
maximum, the stale counter the consecutive non-advances (saturated), and
the peer is declared dead exactly after `DEAD_AFTER_STALE` of them. -/
structure Tracks (p : PeerLiveness) (w : Watch) : Prop where
  lastHb_eq : p.lastHb = w.runMax
  stale_eq : p.stale = min w.run (2 ^ 32 - 1)
  dead_eq : p.declaredDead = decide (deadAfterStale ≤ w.run)

theorem tracks_new : Tracks PeerLiveness.new Watch.start := ⟨rfl, rfl, rfl⟩

/-- One observation keeps the record in step with the history, and emits
what the history says. -/
theorem Tracks.observe {p : PeerLiveness} {w : Watch} (h : Tracks p w) (core v : Nat) :
    Tracks (p.observe core v).1 (w.observe v) ∧ (p.observe core v).2 = w.signal core v := by
  obtain ⟨hhb, hstale, hdead⟩ := h
  unfold PeerLiveness.observe Watch.observe Watch.signal deadAfterStale at *
  rw [hhb, hstale, hdead]
  by_cases hv : w.runMax < v
  · simp only [gt_iff_lt, hv, if_true]
    exact ⟨⟨rfl, rfl, by simp [deadAfterStale]⟩, by simp⟩
  · simp only [gt_iff_lt, hv, if_false]
    -- the saturated counter reaches `DEAD_AFTER_STALE` with the unsaturated one
    have hmin : min (min w.run (2 ^ 32 - 1) + 1) (2 ^ 32 - 1) = min (w.run + 1) (2 ^ 32 - 1) := by
      omega
    by_cases hrun : w.run + 1 = 3
    · rw [if_pos (by simp; omega), if_pos hrun]
      exact ⟨⟨rfl, hmin, by simp [deadAfterStale]; omega⟩, rfl⟩
    · rw [if_neg (by simp; omega), if_neg hrun]
      exact ⟨⟨rfl, hmin, by simp [deadAfterStale]; omega⟩, rfl⟩

namespace CoreStateMachine

/-- `CoreStateMachine::new`. -/
def new (coreId numCores freePages lowWatermark : Nat) : CoreStateMachine :=
  ⟨coreId, numCores, freePages, lowWatermark, List.replicate maxCores CreditorDebt.new, false,
    List.replicate maxCores PeerLiveness.new⟩

/-- `peer_dead`. -/
def peerDead (m : CoreStateMachine) (core : Nat) : Bool :=
  match m.peers[core]? with
  | some p => p.declaredDead
  | none => false

/-- `record_debt`. -/
def recordDebt (m : CoreStateMachine) (creditor : Nat) (range : Range) : Bool × CoreStateMachine :=
  match m.debts[creditor]? with
  | none => (false, m)
  | some d =>
    if d.count ≥ maxDebtRanges then (false, m)
    else (true, { m with debts := m.debts.set creditor ⟨d.ranges.set d.count range, d.count + 1⟩ })

/-- The `Borrowed` arm, with what `record_debt` returned. -/
def borrow (m : CoreStateMachine) (creditor : Nat) (range : Range) : Bool × CoreStateMachine :=
  let (tracked, m) := m.recordDebt creditor range
  (tracked, { m with freePages := addU64 m.freePages range.len })

/-- One turn `c` of the outer loop of the `Pressure` arm. -/
def repayCreditor (st : CoreStateMachine × List Command) (c : Nat) : CoreStateMachine × List Command :=
  let d := st.1.debts.getD c CreditorDebt.new
  let r := compact d.ranges d.count st.1.freePages
  ({ st.1 with freePages := r.freePages, debts := st.1.debts.set c ⟨r.ranges, r.kept⟩ },
    st.2 ++ r.repaid.map (Command.repay c))

/-- The `Pressure` arm: repay every creditor what can be afforded. -/
def repayDebts (m : CoreStateMachine) : CoreStateMachine × List Command :=
  (List.range m.numCores).foldl repayCreditor (m, [])

/-- The `Tick` arm. -/
def tick (m : CoreStateMachine) : CoreStateMachine × List Command :=
  if m.freePages < m.lowWatermark then
    if !m.signaled then
      ({ m with signaled := true },
        ((List.range m.numCores).filter (· ≠ m.coreId)).map Command.sendPressure)
    else (m, [])
  else ({ m with signaled := false }, [])

/-- The `PeerHeartbeat` arm. -/
def heartbeat (m : CoreStateMachine) (core value : Nat) : CoreStateMachine × List Command :=
  match m.peers[core]? with
  | none => (m, [])
  | some p => ({ m with peers := m.peers.set core (p.observe core value).1 }, (p.observe core value).2)

/-- `step`. -/
def step (m : CoreStateMachine) : Event → CoreStateMachine × List Command
  | .tick => m.tick
  | .pressure _ => m.repayDebts
  | .repaid src range => ({ m with freePages := addU64 m.freePages range.len }, [.accept src range])
  | .borrowed creditor range => ((m.borrow creditor range).2, [])
  | .consumed pages => ({ m with freePages := m.freePages - pages }, [])
  | .peerHeartbeat core value => m.heartbeat core value

/-- A sequence of events fed to `step`, with the commands emitted in order. -/
def run (m : CoreStateMachine) : List Event → CoreStateMachine × List Command
  | [] => (m, [])
  | ev :: evs =>
    let r := (m.step ev).1.run evs
    (r.1, (m.step ev).2 ++ r.2)

/-! ### The debt ledger of one machine -/

/-- Every creditor's record fits its slots. -/
def SlotsFit (m : CoreStateMachine) : Prop := ∀ c, (m.debts.getD c CreditorDebt.new).Fits

/-- The debts to `creditor` still recorded: the first `count` slots. -/
def owed (m : CoreStateMachine) (creditor : Nat) : List Range :=
  (m.debts.getD creditor CreditorDebt.new).ranges.take (m.debts.getD creditor CreditorDebt.new).count

theorem slotsFit_new (coreId numCores freePages lowWatermark : Nat) :
    (new coreId numCores freePages lowWatermark).SlotsFit := by
  intro c
  simp only [new, List.getD_eq_getElem?_getD, List.getElem?_replicate]
  split_ifs <;> exact ⟨List.length_replicate, Nat.zero_le _⟩

@[simp] theorem owed_new (coreId numCores freePages lowWatermark c : Nat) :
    (new coreId numCores freePages lowWatermark).owed c = [] := by
  simp only [owed, new, List.getD_eq_getElem?_getD, List.getElem?_replicate]
  split_ifs <;> rfl

/-- A recorded loan is appended to the debts to its creditor; a loan that
is not recorded leaves the machine as it is. -/
theorem recordDebt_spec {m : CoreStateMachine} (hfit : m.SlotsFit) (creditor : Nat) (range : Range) :
    (m.recordDebt creditor range).2 = { m with debts := (m.recordDebt creditor range).2.debts } ∧
      (m.recordDebt creditor range).2.debts.length = m.debts.length ∧
      (m.recordDebt creditor range).2.SlotsFit ∧
      ∀ c, (m.recordDebt creditor range).2.owed c =
        m.owed c ++ (if (m.recordDebt creditor range).1 ∧ c = creditor then [range] else []) := by
  unfold recordDebt
  split
  · exact ⟨rfl, rfl, hfit, fun c => by simp⟩
  · rename_i d hd
    have hlt : creditor < m.debts.length := (List.getElem?_eq_some_iff.mp hd).1
    have hget : m.debts.getD creditor CreditorDebt.new = d := by
      rw [List.getD_eq_getElem?_getD, hd, Option.getD_some]
    obtain ⟨hlen, -⟩ := hget ▸ hfit creditor
    split_ifs with hfull
    · exact ⟨rfl, rfl, hfit, fun c => by simp⟩
    · refine ⟨rfl, List.length_set, fun c => ?_, fun c => ?_⟩
      · simp only [getD_set_eq_ite]
        split_ifs
        · exact ⟨by rw [List.length_set, hlen], Nat.succ_le_of_lt (by omega)⟩
        · exact hfit c
      · simp only [owed, getD_set_eq_ite]
        by_cases hc : creditor = c
        · subst hc
          simp only [hlt, and_self, if_true]
          rw [hget, List.take_add_one, List.take_set_of_le le_rfl, List.getElem?_set_self (by omega)]
          rfl
        · simp [hc, Ne.symm hc]

theorem filterMap_repaidTo_repay (c c' : Nat) (rs : List Range) :
    (rs.map (Command.repay c)).filterMap (Command.repaidTo c') = if c = c' then rs else [] := by
  rw [List.filterMap_map]
  split_ifs with h <;> simp [Function.comp_def, Command.repaidTo, h]

theorem sum_repaidLen_repay (c : Nat) (rs : List Range) :
    ((rs.map (Command.repay c)).map Command.repaidLen).sum = (rs.map Range.len).sum := by
  simp [Function.comp_def, Command.repaidLen]

/-- The turn for creditor `c` replaces the debts to `c` by those the inner
loop kept, and leaves the others. -/
theorem owed_repayCreditor (st : CoreStateMachine × List Command) (c c' : Nat) :
    (repayCreditor st c).1.owed c' =
      if c' = c then
        (compact (st.1.debts.getD c CreditorDebt.new).ranges (st.1.debts.getD c CreditorDebt.new).count
          st.1.freePages).ranges.take
        (compact (st.1.debts.getD c CreditorDebt.new).ranges (st.1.debts.getD c CreditorDebt.new).count
          st.1.freePages).kept
      else st.1.owed c' := by
  unfold owed repayCreditor
  simp only [getD_set_eq_ite]
  by_cases hc' : c' = c
  · subst hc'
    by_cases hlt : c' < st.1.debts.length
    · simp [hlt]
    · -- no record for `c'`: the inner loop runs no turn
      simp [hlt, CreditorDebt.new, compact]
  · simp [hc', Ne.symm hc']

/-- What the turns of the `Pressure` arm taken so far keep, started from
`m` with the commands `cmds` already emitted: only the free pages and the
debts change, every record still fits, each creditor's recorded debts and
the ranges repaid to it are those at the start rearranged, every page
repaid left the free pages, and only `Repay` to a creditor below
`num_cores` was emitted. -/
structure RepayInv (m : CoreStateMachine) (cmds : List Command) (m' : CoreStateMachine)
    (out : List Command) : Prop where
  frame : ∃ free debts, m' = { m with freePages := free, debts := debts }
  length_eq : m'.debts.length = m.debts.length
  fit : m'.SlotsFit
  owed_perm : ∀ c, List.Perm (m'.owed c ++ out.filterMap (Command.repaidTo c))
    (m.owed c ++ cmds.filterMap (Command.repaidTo c))
  free_eq : m'.freePages + (out.map Command.repaidLen).sum = m.freePages + (cmds.map Command.repaidLen).sum
  out_repay : ∀ cmd ∈ out, cmd ∈ cmds ∨ ∃ c < m.numCores, ∃ r, cmd = .repay c r

theorem RepayInv.refl {m : CoreStateMachine} (hfit : m.SlotsFit) (cmds : List Command) :
    RepayInv m cmds m cmds :=
  ⟨⟨m.freePages, m.debts, rfl⟩, rfl, hfit, fun _ => List.Perm.refl _, rfl, fun _ h => Or.inl h⟩

/-- One turn of the outer loop keeps `RepayInv`: the inner loop's
rearrangement of the debts to `c` is the ledger step. -/
theorem RepayInv.turn {m m' : CoreStateMachine} {cmds out : List Command}
    (h : RepayInv m cmds m' out) {c : Nat} (hc : c < m.numCores) :
    RepayInv m cmds (repayCreditor (m', out) c).1 (repayCreditor (m', out) c).2 := by
  obtain ⟨⟨free, debts, rfl⟩, hlength, hfit, hperm, hfree, hout⟩ := h
  set m' : CoreStateMachine := { m with freePages := free, debts := debts } with hm'
  set d := m'.debts.getD c CreditorDebt.new
  have hr := @compact_inv d.ranges d.count m'.freePages (by rw [(hfit c).1]; exact (hfit c).2)
  set r := compact d.ranges d.count m'.freePages
  have hcmds : (repayCreditor (m', out) c).2 = out ++ r.repaid.map (Command.repay c) := rfl
  refine ⟨⟨r.freePages, m'.debts.set c ⟨r.ranges, r.kept⟩, rfl⟩, (List.length_set ..).trans hlength, fun c' => ?_,
    fun c' => ?_, ?_, ?_⟩
  · -- fit: the kept ranges stay in their slots
    show (List.getD (m'.debts.set c ⟨r.ranges, r.kept⟩) c' CreditorDebt.new).Fits
    rw [getD_set_eq_ite]
    split_ifs
    · exact ⟨hr.length_eq.trans (hfit c).1, hr.kept_le.trans (hfit c).2⟩
    · exact hfit c'
  · rw [owed_repayCreditor, hcmds, List.filterMap_append, filterMap_repaidTo_repay]
    by_cases hc' : c' = c
    · subst hc'
      simp only [if_true]
      refine List.Perm.trans ?_ (hperm c')
      rw [← List.append_assoc]
      refine List.Perm.trans ?_ (hr.perm.append_right _)
      rw [List.append_assoc, List.append_assoc]
      exact List.perm_append_comm.append_left _
    · simpa [hc', Ne.symm hc'] using hperm c'
  · rw [hcmds, List.map_append, List.sum_append, sum_repaidLen_repay, ← hfree, ← hr.free_eq]
    show r.freePages + _ = _
    omega
  · intro cmd hmem
    rw [hcmds, List.mem_append] at hmem
    rcases hmem with hmem | hmem
    · exact hout cmd hmem
    · obtain ⟨x, -, rfl⟩ := List.mem_map.mp hmem
      exact Or.inr ⟨c, hc, x, rfl⟩

theorem RepayInv.foldl {m m' : CoreStateMachine} {cmds out : List Command} (h : RepayInv m cmds m' out) :
    ∀ l : List Nat, (∀ c ∈ l, c < m.numCores) →
      RepayInv m cmds (l.foldl repayCreditor (m', out)).1 (l.foldl repayCreditor (m', out)).2
  | [], _ => h
  | c :: l, hl => by
    rw [List.foldl_cons]
    exact (h.turn (hl c List.mem_cons_self)).foldl l (fun c' hc' => hl c' (List.mem_cons_of_mem _ hc'))

/-- The `Pressure` arm: every creditor's debts are those kept and those
repaid, rearranged; the pages repaid are the pages the free pages lost;
only `Repay` to creditors below `num_cores` is emitted. -/
theorem repayDebts_spec {m : CoreStateMachine} (hfit : m.SlotsFit) :
    RepayInv m [] m.repayDebts.1 m.repayDebts.2 :=
  (RepayInv.refl hfit []).foldl (List.range m.numCores) (fun _ hc => List.mem_range.mp hc)

/-! ### Liveness over runs -/

theorem recordDebt_peers (m : CoreStateMachine) (creditor : Nat) (range : Range) :
    (m.recordDebt creditor range).2.peers = m.peers := by
  unfold recordDebt
  split
  · rfl
  · split_ifs <;> rfl

/-- The turns of the `Pressure` arm keep the peers and emit only `Repay`. -/
theorem foldl_repayCreditor (c : Nat) :
    ∀ (l : List Nat) (st : CoreStateMachine × List Command),
      (l.foldl repayCreditor st).1.peers = st.1.peers ∧
        (l.foldl repayCreditor st).2.filter (Command.isLivenessOf c) = st.2.filter (Command.isLivenessOf c)
  | [], _ => ⟨rfl, rfl⟩
  | d :: l, st => by
    obtain ⟨hpeers, hcmds⟩ := foldl_repayCreditor c l (repayCreditor st d)
    refine ⟨hpeers, ?_⟩
    rw [List.foldl_cons, hcmds, repayCreditor, List.filter_append]
    simp [List.filter_map, Function.comp_def, Command.isLivenessOf]

/-- Frame: an event that is not a heartbeat of `c` leaves `c`'s record as it
is and emits no liveness command about `c`. -/
theorem step_of_heartbeatOf_eq_none (m : CoreStateMachine) {ev : Event} {c : Nat}
    (hev : ev.heartbeatOf c = none) :
    (m.step ev).1.peers[c]? = m.peers[c]? ∧ (m.step ev).2.filter (Command.isLivenessOf c) = [] := by
  cases ev with
  | tick =>
    unfold step tick
    split_ifs <;> simp [List.filter_map, Function.comp_def, Command.isLivenessOf]
  | pressure src =>
    obtain ⟨hpeers, hcmds⟩ := foldl_repayCreditor c (List.range m.numCores) (m, [])
    exact ⟨by rw [step, repayDebts, hpeers], by rw [step, repayDebts, hcmds, List.filter_nil]⟩
  | repaid src range => simp [step, Command.isLivenessOf]
  | borrowed creditor range => simp [step, borrow, recordDebt_peers]
  | consumed pages => simp [step]
  | peerHeartbeat core value =>
    -- another core's heartbeat: its record and its commands only
    have hne : core ≠ c := by
      intro h
      simp [Event.heartbeatOf, h] at hev
    simp only [step, heartbeat]
    split
    · simp
    · simp [List.getElem?_set_ne hne, PeerLiveness.observe_filter, hne]

/-- A heartbeat of `c` observes it in `c`'s record. -/
theorem step_peerHeartbeat_self (m : CoreStateMachine) {c v : Nat} {p : PeerLiveness}
    (hp : m.peers[c]? = some p) :
    (m.step (.peerHeartbeat c v)).1.peers[c]? = some (p.observe c v).1 ∧
      (m.step (.peerHeartbeat c v)).2.filter (Command.isLivenessOf c) = (p.observe c v).2 := by
  have hc : c < m.peers.length := (List.getElem?_eq_some_iff.mp hp).1
  simp [step, heartbeat, hp, List.getElem?_set_self hc, PeerLiveness.observe_filter]

theorem step_peers_length (m : CoreStateMachine) (ev : Event) :
    (m.step ev).1.peers.length = m.peers.length := by
  cases ev with
  | pressure src =>
    rw [step, repayDebts, (foldl_repayCreditor 0 (List.range m.numCores) (m, [])).1]
  | borrowed creditor range => simp [step, borrow, recordDebt_peers]
  | peerHeartbeat core value =>
    simp only [step, heartbeat]
    split <;> simp
  | tick =>
    unfold step tick
    split_ifs <;> rfl
  | repaid | consumed => rfl

theorem run_peers_length (m : CoreStateMachine) : ∀ evs, (m.run evs).1.peers.length = m.peers.length
  | [] => rfl
  | ev :: evs => by rw [run, run_peers_length _ evs, step_peers_length]

/-- Over a run, a peer's record keeps track of the history of its heartbeats
and the liveness commands about it are what that history emits; by
induction on the events, each one a heartbeat of the peer or not. -/
theorem run_tracks {c : Nat} : ∀ (evs : List Event) (m : CoreStateMachine) (p : PeerLiveness) (w : Watch),
    m.peers[c]? = some p → Tracks p w →
      ∃ p', (m.run evs).1.peers[c]? = some p' ∧ Tracks p' (w.after (heartbeatsOf c evs)) ∧
        (m.run evs).2.filter (Command.isLivenessOf c) = w.signals c (heartbeatsOf c evs)
  | [], _, p, _, hp, hw => ⟨p, hp, hw, rfl⟩
  | ev :: evs, m, p, w, hp, hw => by
    cases hev : ev.heartbeatOf c with
    | none =>
      obtain ⟨hpeer, hcmds⟩ := m.step_of_heartbeatOf_eq_none hev
      obtain ⟨p', hp', hw', hrest⟩ := run_tracks evs (m.step ev).1 p w (hpeer.trans hp) hw
      refine ⟨p', hp', ?_, ?_⟩
      · simpa [heartbeatsOf, hev] using hw'
      · simpa [run, heartbeatsOf, hev, hcmds] using hrest
    | some v =>
      obtain rfl := Event.eq_of_heartbeatOf hev
      obtain ⟨hpeer, hcmds⟩ := m.step_peerHeartbeat_self (v := v) hp
      obtain ⟨hobs, hsig⟩ := hw.observe c v
      obtain ⟨p', hp', hw', hrest⟩ := run_tracks evs _ _ _ hpeer hobs
      refine ⟨p', hp', ?_, ?_⟩
      · simpa [heartbeatsOf, hev, Watch.after] using hw'
      · simpa [run, heartbeatsOf, hev, hcmds, hsig, Watch.signals] using hrest

theorem peerDead_of_getElem? {m : CoreStateMachine} {c : Nat} {p : PeerLiveness}
    (hp : m.peers[c]? = some p) : m.peerDead c = p.declaredDead := by
  simp [peerDead, hp]

theorem peerLiveness_alternates (coreId numCores freePages lowWatermark : Nat) (evs : List Event) (c : Nat) :
    let r := (new coreId numCores freePages lowWatermark).run evs
    (c < maxCores →
      r.2.filter (Command.isLivenessOf c) = Watch.start.signals c (heartbeatsOf c evs) ∧
        ∃ k, r.2.filter (Command.isLivenessOf c) = alternating c k ∧ (r.1.peerDead c = true ↔ k % 2 = 1)) ∧
    (maxCores ≤ c → ∀ value, r.1.step (.peerHeartbeat c value) = (r.1, [])) := by
  intro r
  constructor
  · intro hc
    have hp : (new coreId numCores freePages lowWatermark).peers[c]? = some PeerLiveness.new := by
      simp [new, hc]
    obtain ⟨p', hp', hw', hcmds⟩ := run_tracks evs _ _ _ hp tracks_new
    obtain ⟨k, hk, hdead⟩ := Watch.signals_alternating c (heartbeatsOf c evs) Watch.start 0 (by decide)
    refine ⟨hcmds, k, by rw [hcmds, ← hk, alternating, List.range_zero, List.map_nil, List.nil_append], ?_⟩
    rw [peerDead_of_getElem? hp', hw'.dead_eq, hdead, decide_eq_true_iff]
  · intro hc value
    have hlen : r.1.peers.length = maxCores := by
      rw [run_peers_length]
      simp [new]
    have hnone : r.1.peers[c]? = none := List.getElem?_eq_none (by omega)
    simp [step, heartbeat, hnone]

end CoreStateMachine

end Akuma.Smp
