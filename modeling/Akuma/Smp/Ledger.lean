import Akuma.Smp.StateMachine

/-!
# The debt ledger across cores

The simulator of the tests of `akuma-smp/src/state_machine.rs` (`Sim`),
run asynchronously: `N` machines, loans between them (`lend`), and the
commands each emits routed to the others as `route` does. The per-core
inboxes are one list of addressed events, any of which may be delivered
next, and any core may tick at any time; the barrier rounds of `run_round`
are one schedule among these.

Two ghost records are kept beside the source's fields: the loans whose
`record_debt` returned `true`, and every command routed with the core that
emitted it (the source keeps only `zeroed`, the receiver and range of each
`Accept`).

The results: the pages of all cores and of the `Repaid` events in flight
sum to a constant, and for every debtor and creditor the loans recorded
are the debts still recorded, the repayments in flight and those the
creditor accepted. Both hold while that constant is below `2 ^ 64`: the
additions of `Repaid` and `Borrowed` wrap, and past `2 ^ 64` they do.
-/

namespace Akuma.Smp

/-- Each element of a list contributes its part of the sum. -/
theorem le_sum_map_of_getElem? {α : Type} (f : α → Nat) {l : List α} {i : Nat} {a : α}
    (h : l[i]? = some a) : f a ≤ (l.map f).sum :=
  List.le_sum_of_mem (List.mem_map_of_mem (List.mem_of_getElem? h))

/-- Replacing one element of a list changes its sum by the difference. -/
theorem sum_map_set_add {α : Type} (f : α → Nat) (x : α) :
    ∀ {l : List α} {i : Nat} {a : α}, l[i]? = some a → ((l.set i x).map f).sum + f a = (l.map f).sum + f x
  | b :: l, 0, a, h => by
    obtain rfl : b = a := by simpa using h
    simp only [List.set_cons_zero, List.map_cons, List.sum_cons]
    omega
  | b :: l, i + 1, a, h => by
    have ih := sum_map_set_add f x (l := l) (i := i) (by simpa using h)
    simp only [List.set_cons_succ, List.map_cons, List.sum_cons]
    omega

/-- Removing an element from the middle of a list, as a multiset. -/
theorem coe_filterMap_middle {α β : Type} (f : α → Option β) (before after : List α) (x : α) :
    ((before ++ x :: after).filterMap f : Multiset β) = ((before ++ after).filterMap f : Multiset β) + (f x).toList := by
  rw [Multiset.coe_add, Multiset.coe_eq_coe]
  refine (List.perm_middle.filterMap f).trans ?_
  rw [List.filterMap_cons, List.filterMap_append]
  cases f x with
  | none => simp
  | some b => simpa [List.append_assoc] using (List.perm_append_singleton b (before.filterMap f ++ after.filterMap f)).symm

/-- Whether an event is one of those `route` sends: `Pressure` or `Repaid`. -/
def Event.isMessage : Event → Bool
  | .pressure _ | .repaid _ _ => true
  | .tick | .borrowed _ _ | .consumed _ | .peerHeartbeat _ _ => false

/-- The pages an event in flight carries: a `Repaid`'s range length. -/
def Event.repaidLen : Event → Nat
  | .repaid _ r => r.len
  | .tick | .pressure _ | .borrowed _ _ | .consumed _ | .peerHeartbeat _ _ => 0

/-- The range of a `Repaid` from `debtor`. -/
def Event.repaidFrom (debtor : Nat) : Event → Option Range
  | .repaid src r => if src = debtor then some r else none
  | .tick | .pressure _ | .borrowed _ _ | .consumed _ | .peerHeartbeat _ _ => none

/-- The range of an `Accept` from `debtor`. -/
def Command.acceptedFrom (debtor : Nat) : Command → Option Range
  | .accept src r => if src = debtor then some r else none
  | .sendPressure _ | .repay _ _ | .peerDown _ | .peerUp _ => none

/-- The event `route` sends for a command of core `src`, with its
destination. -/
def Command.routed (src : Nat) : Command → Option (Nat × Event)
  | .sendPressure dest => some (dest, .pressure src)
  | .repay creditor range => some (creditor, .repaid src range)
  | .accept _ _ | .peerDown _ | .peerUp _ => none

/-- What a machine does on a tick or a message, in the terms of the
ledger: the records still fit, only events for one of the `num_cores`
cores are routed, the pages it holds and hands back are those it held and
received, the debts it still records and those it repaid are those it
recorded, and it accepts exactly what a `Repaid` brings. -/
structure Handles (m : CoreStateMachine) (ev : Event) (m' : CoreStateMachine) (cmds : List Command) :
    Prop where
  numCores_eq : m'.numCores = m.numCores
  debts_length_eq : m'.debts.length = m.debts.length
  fit : m'.SlotsFit
  routed : ∀ cmd ∈ cmds, ∀ k e, cmd.routed k = some e → e.1 < m.numCores ∧ e.2.isMessage = true
  free_eq : m'.freePages + (cmds.map Command.repaidLen).sum = m.freePages + ev.repaidLen
  owed_perm : ∀ c, List.Perm (m'.owed c ++ cmds.filterMap (Command.repaidTo c)) (m.owed c)
  accepted_eq : ∀ d, cmds.filterMap (Command.acceptedFrom d) = (ev.repaidFrom d).toList

namespace CoreStateMachine

theorem handles_tick {m : CoreStateMachine} (hfit : m.SlotsFit) : Handles m .tick m.tick.1 m.tick.2 := by
  unfold tick
  split_ifs
  · refine ⟨rfl, rfl, hfit, ?_, ?_, fun c => by simp [owed, Function.comp_def, Command.repaidTo], fun d => ?_⟩
    · -- `SendPressure` to a peer below `num_cores`
      intro cmd hcmd k e he
      obtain ⟨p, hp, rfl⟩ := List.mem_map.mp hcmd
      simp only [Command.routed, Option.some.injEq] at he
      subst he
      exact ⟨List.mem_range.mp (List.mem_filter.mp hp).1, rfl⟩
    · simp [Function.comp_def, Command.repaidLen, Event.repaidLen]
    · simp [List.filterMap_map, Function.comp_def, Command.acceptedFrom, Event.repaidFrom]
  · exact ⟨rfl, rfl, hfit, by simp, rfl, fun c => by simp, fun d => rfl⟩
  · exact ⟨rfl, rfl, hfit, by simp, rfl, fun c => by simp [owed], fun d => rfl⟩

theorem handles_repayDebts {m : CoreStateMachine} (hfit : m.SlotsFit) (src : Nat) :
    Handles m (.pressure src) m.repayDebts.1 m.repayDebts.2 := by
  obtain ⟨⟨free, debts, hframe⟩, hlength, hfit', hperm, hfree, hout⟩ := repayDebts_spec hfit
  -- every command of the arm is a `Repay` to a creditor below `num_cores`
  have hrepay : ∀ cmd ∈ m.repayDebts.2, ∃ c < m.numCores, ∃ r, cmd = .repay c r :=
    fun cmd h => (hout cmd h).resolve_left List.not_mem_nil
  refine ⟨by rw [hframe], hlength, hfit', ?_, by simpa [Event.repaidLen] using hfree,
    fun c => by simpa using hperm c, fun d => ?_⟩
  · intro cmd hcmd k e he
    obtain ⟨c, hc, r, rfl⟩ := hrepay cmd hcmd
    simp only [Command.routed, Option.some.injEq] at he
    subst he
    exact ⟨hc, rfl⟩
  · rw [List.filterMap_eq_nil_iff.mpr]
    · rfl
    · intro cmd hcmd
      obtain ⟨c, -, r, rfl⟩ := hrepay cmd hcmd
      rfl

theorem handles_repaid (m : CoreStateMachine) (src : Nat) (range : Range)
    (hno : m.freePages + range.len < 2 ^ 64) (hfit : m.SlotsFit) :
    Handles m (.repaid src range) (m.step (.repaid src range)).1 (m.step (.repaid src range)).2 := by
  refine ⟨rfl, rfl, hfit, ?_, ?_, fun c => by simp [step, owed, List.filterMap_cons, Command.repaidTo],
    fun d => ?_⟩
  · simp [step, Command.routed]
  · -- below `2 ^ 64` the addition does not wrap
    simp only [step, addU64]
    rw [Nat.mod_eq_of_lt hno]
    simp [Command.repaidLen, Event.repaidLen]
  · by_cases h : src = d <;> simp [step, Command.acceptedFrom, Event.repaidFrom, h]

/-- The `Borrowed` arm, below `2 ^ 64`: the debtor holds the range's
pages, and records the loan as `record_debt` decides. -/
theorem borrow_spec {m : CoreStateMachine} (hfit : m.SlotsFit) (creditor : Nat) (range : Range)
    (hno : m.freePages + range.len < 2 ^ 64) :
    (m.step (.borrowed creditor range)).1.numCores = m.numCores ∧
      (m.step (.borrowed creditor range)).1.debts.length = m.debts.length ∧
      (m.step (.borrowed creditor range)).1.SlotsFit ∧
      (m.step (.borrowed creditor range)).1.freePages = m.freePages + range.len ∧
      ∀ c, (m.step (.borrowed creditor range)).1.owed c =
        m.owed c ++ (if (m.recordDebt creditor range).1 ∧ c = creditor then [range] else []) := by
  obtain ⟨hframe, hlength, hfit', howed⟩ := recordDebt_spec hfit creditor range
  have hfree : (m.recordDebt creditor range).2.freePages = m.freePages := by rw [hframe]
  have hcores : (m.recordDebt creditor range).2.numCores = m.numCores := by rw [hframe]
  refine ⟨hcores, hlength, hfit', ?_, fun c => howed c⟩
  show addU64 (m.recordDebt creditor range).2.freePages range.len = _
  rw [addU64, hfree, Nat.mod_eq_of_lt hno]

end CoreStateMachine

/-- `Sim`, with the inboxes as one list of `(destination, event)`. -/
structure Sim where
  brains : List CoreStateMachine
  inflight : List (Nat × Event)
  zeroed : List (Nat × Range)
  /-- Ghost: `(debtor, creditor, range)` of each loan `record_debt` recorded. -/
  loans : List (Nat × Nat × Range)
  /-- Ghost: every command routed, with the core that emitted it. -/
  log : List (Nat × Command)

namespace Sim

/-- `Sim::new`. -/
def init (brains : List CoreStateMachine) : Sim := ⟨brains, [], [], [], []⟩

/-- `route`: a command of core `src` goes to an inbox or to `zeroed`. -/
def route (src : Nat) (s : Sim) (cmd : Command) : Sim :=
  let s := { s with log := s.log ++ [(src, cmd)] }
  match cmd with
  | .sendPressure dest => { s with inflight := s.inflight ++ [(dest, .pressure src)] }
  | .repay creditor range => { s with inflight := s.inflight ++ [(creditor, .repaid src range)] }
  | .accept _ range => { s with zeroed := s.zeroed ++ [(src, range)] }
  | .peerDown _ => s
  | .peerUp _ => s

/-- Core `k` steps on `ev`, and its commands are routed. -/
def deliver (s : Sim) (k : Nat) (ev : Event) : Sim :=
  match s.brains[k]? with
  | none => s
  | some m => (m.step ev).2.foldl (route k) { s with brains := s.brains.set k (m.step ev).1 }

/-- `lend`: the creditor's pages go to the debtor, which steps `Borrowed`. -/
def lend (s : Sim) (creditor debtor : Nat) (range : Range) : Sim :=
  let s := { s with
    brains := s.brains.modify creditor fun m => { m with freePages := m.freePages - range.len } }
  match s.brains[debtor]? with
  | none => s
  | some m =>
    { s with
      brains := s.brains.set debtor (m.step (.borrowed creditor range)).1
      loans := if (m.recordDebt creditor range).1 then s.loans ++ [(debtor, creditor, range)] else s.loans }

/-- One move of an asynchronous execution: a loan between two cores, a
tick of a core, or the delivery of any event in flight. -/
inductive Step : Sim → Sim → Prop
  | lend {s : Sim} {creditor debtor : Nat} {range : Range} {m : CoreStateMachine}
      (hc : s.brains[creditor]? = some m) (hd : debtor < s.brains.length) (hne : creditor ≠ debtor)
      (hlen : range.len ≤ m.freePages) : Step s (s.lend creditor debtor range)
  | tick {s : Sim} {k : Nat} (hk : k < s.brains.length) : Step s (s.deliver k .tick)
  | deliver {s : Sim} (before after : List (Nat × Event)) (dest : Nat) (ev : Event)
      (h : s.inflight = before ++ (dest, ev) :: after) :
      Step s ({ s with inflight := before ++ after }.deliver dest ev)

/-- The pages of all cores and of the `Repaid` events in flight. -/
def total (s : Sim) : Nat :=
  (s.brains.map CoreStateMachine.freePages).sum + (s.inflight.map fun e => e.2.repaidLen).sum

/-- The debts of `debtor` to `creditor` still recorded by the debtor. -/
def recorded (s : Sim) (debtor creditor : Nat) : List Range :=
  match s.brains[debtor]? with
  | some m => m.owed creditor
  | none => []

/-- The repayments of `debtor` in flight to `creditor`. -/
def inTransit (s : Sim) (debtor creditor : Nat) : List Range :=
  s.inflight.filterMap fun e => if e.1 = creditor then e.2.repaidFrom debtor else none

/-- The repayments of `debtor` that `creditor` accepted. -/
def accepted (s : Sim) (debtor creditor : Nat) : List Range :=
  s.log.filterMap fun e => if e.1 = creditor then e.2.acceptedFrom debtor else none

/-- The loans of `creditor` to `debtor` that the debtor recorded. -/
def tracked (s : Sim) (debtor creditor : Nat) : List Range :=
  s.loans.filterMap fun l => if l.1 = debtor ∧ l.2.1 = creditor then some l.2.2 else none

/-! ### One move -/

/-- Routing the commands of core `k`: the events for the others join those
in flight, and the commands the log. -/
theorem foldl_route (k : Nat) : ∀ (cmds : List Command) (s : Sim),
    (cmds.foldl (route k) s).brains = s.brains ∧
      (cmds.foldl (route k) s).inflight = s.inflight ++ cmds.filterMap (Command.routed k) ∧
      (cmds.foldl (route k) s).loans = s.loans ∧
      (cmds.foldl (route k) s).log = s.log ++ cmds.map (Prod.mk k)
  | [], s => by simp
  | cmd :: cmds, s => by
    obtain ⟨h1, h2, h3, h4⟩ := foldl_route k cmds (route k s cmd)
    rw [List.foldl_cons, h1, h2, h3, h4]
    cases cmd <;> simp [route, Command.routed, List.filterMap_cons]

theorem deliver_eq {s : Sim} {k : Nat} {m : CoreStateMachine} (hm : s.brains[k]? = some m) (ev : Event) :
    (s.deliver k ev).brains = s.brains.set k (m.step ev).1 ∧
      (s.deliver k ev).inflight = s.inflight ++ (m.step ev).2.filterMap (Command.routed k) ∧
      (s.deliver k ev).loans = s.loans ∧
      (s.deliver k ev).log = s.log ++ (m.step ev).2.map (Prod.mk k) := by
  simp only [deliver, hm]
  exact foldl_route k _ _

theorem recorded_of_brains {s s' : Sim} {k : Nat} {m : CoreStateMachine} (hk : k < s.brains.length)
    (h : s'.brains = s.brains.set k m) (d c : Nat) :
    s'.recorded d c = if d = k then m.owed c else s.recorded d c := by
  unfold recorded
  rw [h, List.getElem?_set]
  by_cases hd : d = k
  · simp [hd, hk]
  · simp [hd, Ne.symm hd]

theorem inTransit_routed (k d c : Nat) (cmds : List Command) :
    (cmds.filterMap (Command.routed k)).filterMap (fun e => if e.1 = c then e.2.repaidFrom d else none) =
      if k = d then cmds.filterMap (Command.repaidTo c) else [] := by
  induction cmds with
  | nil => simp
  | cons cmd cmds ih =>
    rw [List.filterMap_cons]
    cases cmd with
    | repay c' r =>
      simp only [Command.routed, List.filterMap_cons]
      rw [ih]
      by_cases hkd : k = d <;> by_cases hc : c' = c <;>
        simp [hkd, hc, Event.repaidFrom, Command.repaidTo]
    | _ => simpa [Command.routed, Event.repaidFrom, Command.repaidTo, List.filterMap_cons] using ih

theorem accepted_logged (k d c : Nat) (cmds : List Command) :
    (cmds.map (Prod.mk k)).filterMap (fun e => if e.1 = c then e.2.acceptedFrom d else none) =
      if k = c then cmds.filterMap (Command.acceptedFrom d) else [] := by
  rw [List.filterMap_map]
  split_ifs with h <;> simp [h]

theorem sum_repaidLen_routed (k : Nat) (cmds : List Command) :
    ((cmds.filterMap (Command.routed k)).map fun e => e.2.repaidLen).sum = (cmds.map Command.repaidLen).sum := by
  induction cmds with
  | nil => rfl
  | cons cmd cmds ih =>
    rw [List.filterMap_cons]
    cases cmd <;> simp only [Command.routed] <;> simp only [List.map_cons, List.sum_cons, ih] <;>
      simp [Command.repaidLen, Event.repaidLen]

/-- Core `k` handling `ev` moves the ledger as `Handles` says: the pages
grow by what the event brought, the loans stay, and for each debtor and
creditor the debts recorded or in flight stay, beside the accepted ones
that grow by what the event brought. -/
theorem deliver_of_handles {s : Sim} {k : Nat} {m : CoreStateMachine} (hm : s.brains[k]? = some m) {ev : Event}
    (h : Handles m ev (m.step ev).1 (m.step ev).2) :
    (s.deliver k ev).total = s.total + ev.repaidLen ∧
      (∀ d c, (s.deliver k ev).tracked d c = s.tracked d c) ∧
      ∀ d c, ((s.deliver k ev).recorded d c : Multiset Range) + (s.deliver k ev).inTransit d c +
          (s.deliver k ev).accepted d c =
        (s.recorded d c : Multiset Range) + s.inTransit d c + s.accepted d c +
          (if k = c then (ev.repaidFrom d).toList else [])
  := by
  obtain ⟨hb, hi, hl, hlog⟩ := deliver_eq hm ev
  have hk : k < s.brains.length := (List.getElem?_eq_some_iff.mp hm).1
  refine ⟨?_, fun d c => by rw [tracked, tracked, hl], fun d c => ?_⟩
  · -- the machine's pages and those it routed are what it held and received
    have hset := sum_map_set_add CoreStateMachine.freePages (m.step ev).1 hm
    have hfree := h.free_eq
    unfold total
    rw [hb, hi, List.map_append, List.sum_append, sum_repaidLen_routed]
    omega
  · rw [recorded_of_brains hk hb, inTransit, hi, List.filterMap_append, inTransit_routed, accepted, hlog,
      List.filterMap_append, accepted_logged, h.accepted_eq, ← inTransit, ← accepted]
    by_cases hd : d = k
    · -- the handling machine: its debts to `c` are kept or repaid to `c`
      subst hd
      have hperm : ((m.step ev).1.owed c : Multiset Range) + (m.step ev).2.filterMap (Command.repaidTo c) =
          m.owed c := by
        rw [Multiset.coe_add, Multiset.coe_eq_coe]
        exact h.owed_perm c
      have hrec : s.recorded d c = m.owed c := by simp [recorded, hm]
      simp only [if_true, hrec, ← Multiset.coe_add, ← hperm]
      abel
    · simp only [hd, Ne.symm hd, if_false, List.append_nil, ← Multiset.coe_add]
      abel

theorem lend_eq {s : Sim} {creditor debtor : Nat} {range : Range} {mc md : CoreStateMachine}
    (hc : s.brains[creditor]? = some mc) (hd : s.brains[debtor]? = some md) (hne : creditor ≠ debtor) :
    s.lend creditor debtor range =
      { s with
        brains := (s.brains.set creditor { mc with freePages := mc.freePages - range.len }).set debtor
          (md.step (.borrowed creditor range)).1
        loans := if (md.recordDebt creditor range).1 then s.loans ++ [(debtor, creditor, range)] else s.loans } := by
  simp [lend, List.modify_eq_set_getElem?, hc, List.getElem?_set_ne hne, hd]

theorem tracked_lend {s : Sim} {creditor debtor : Nat} {range : Range} {mc md : CoreStateMachine}
    (hc : s.brains[creditor]? = some mc) (hd : s.brains[debtor]? = some md) (hne : creditor ≠ debtor)
    (d c : Nat) :
    (s.lend creditor debtor range).tracked d c =
      s.tracked d c ++ (if d = debtor ∧ (md.recordDebt creditor range).1 ∧ c = creditor then [range] else []) := by
  rw [lend_eq hc hd hne]
  unfold tracked
  by_cases hb : (md.recordDebt creditor range).1 = true
  · by_cases hdc : d = debtor ∧ c = creditor
    · obtain ⟨rfl, rfl⟩ := hdc
      simp [hb]
    · simp only [hb, if_true, List.filterMap_append, List.filterMap_cons, List.filterMap_nil]
      rw [if_neg (by tauto), if_neg (by tauto)]
  · simp [hb]

theorem recorded_lend {s : Sim} {creditor debtor : Nat} {range : Range} {mc md : CoreStateMachine}
    (hc : s.brains[creditor]? = some mc) (hd : s.brains[debtor]? = some md) (hne : creditor ≠ debtor)
    (hfit : md.SlotsFit) (hno : md.freePages + range.len < 2 ^ 64) (d c : Nat) :
    (s.lend creditor debtor range).recorded d c =
      s.recorded d c ++ (if d = debtor ∧ (md.recordDebt creditor range).1 ∧ c = creditor then [range] else []) := by
  obtain ⟨-, -, -, -, howed⟩ := CoreStateMachine.borrow_spec hfit creditor range hno
  have hkc := (List.getElem?_eq_some_iff.mp hc).1
  have hkd := (List.getElem?_eq_some_iff.mp hd).1
  rw [lend_eq hc hd hne]
  unfold recorded
  by_cases hdd : d = debtor
  · subst hdd
    rw [List.getElem?_set_self (by rw [List.length_set]; exact hkd), hd]
    simp only [true_and]
    exact howed c
  · have hother : ¬(d = debtor ∧ (md.recordDebt creditor range).1 ∧ c = creditor) := fun h => hdd h.1
    rw [List.getElem?_set_ne (Ne.symm hdd), if_neg hother, List.append_nil]
    by_cases hdc : d = creditor
    · -- the creditor's debts do not change with its pages
      subst hdc
      rw [List.getElem?_set_self hkc, hc]
      rfl
    · rw [List.getElem?_set_ne (Ne.symm hdc)]

/-! ### The invariant -/

/-- The shape an execution keeps: `N` machines, each told `num_cores = N`
and with records that fit, and in flight only `Pressure` and `Repaid`,
each for one of the machines. -/
structure WF (N : Nat) (s : Sim) : Prop where
  length_eq : s.brains.length = N
  brains : ∀ m ∈ s.brains, m.numCores = N ∧ m.SlotsFit
  debts_length : ∀ m ∈ s.brains, m.debts.length = maxCores
  inflight : ∀ e ∈ s.inflight, e.1 < N ∧ e.2.isMessage = true

/-- The invariant of an execution of `N` cores sharing `T` pages: every
page is accounted for, and every recorded loan is still recorded, in
flight back to its creditor, or accepted by it. -/
structure Inv (N T : Nat) (s : Sim) : Prop where
  wf : s.WF N
  total_eq : s.total = T
  ledger : ∀ d c, (s.tracked d c : Multiset Range) = s.recorded d c + s.inTransit d c + s.accepted d c

theorem handles_of_isMessage {m : CoreStateMachine} (hfit : m.SlotsFit) {ev : Event}
    (hev : ev = .tick ∨ ev.isMessage = true) (hno : m.freePages + ev.repaidLen < 2 ^ 64) :
    Handles m ev (m.step ev).1 (m.step ev).2 := by
  rcases hev with rfl | hev
  · exact CoreStateMachine.handles_tick hfit
  · cases ev with
    | pressure src => exact CoreStateMachine.handles_repayDebts hfit src
    | repaid src range => exact CoreStateMachine.handles_repaid m src range hno hfit
    | _ => simp [Event.isMessage] at hev

theorem WF.deliver {N : Nat} {s : Sim} {k : Nat} {m : CoreStateMachine} (hwf : s.WF N)
    (hm : s.brains[k]? = some m) {ev : Event} (h : Handles m ev (m.step ev).1 (m.step ev).2) :
    (s.deliver k ev).WF N := by
  obtain ⟨hb, hi, -, -⟩ := deliver_eq hm ev
  have hmN := hwf.brains m (List.mem_of_getElem? hm)
  refine ⟨by rw [hb, List.length_set, hwf.length_eq], fun m' hm' => ?_, fun m' hm' => ?_, fun e he => ?_⟩
  · rw [hb] at hm'
    rcases List.mem_or_eq_of_mem_set hm' with hm' | rfl
    · exact hwf.brains m' hm'
    · exact ⟨h.numCores_eq.trans hmN.1, h.fit⟩
  · rw [hb] at hm'
    rcases List.mem_or_eq_of_mem_set hm' with hm' | rfl
    · exact hwf.debts_length m' hm'
    · exact h.debts_length_eq.trans (hwf.debts_length m (List.mem_of_getElem? hm))
  · rw [hi, List.mem_append] at he
    rcases he with he | he
    · exact hwf.inflight e he
    · -- a routed command: an event for one of the `num_cores` cores
      obtain ⟨cmd, hcmd, hroute⟩ := List.mem_filterMap.mp he
      obtain ⟨hlt, hmsg⟩ := h.routed cmd hcmd k e hroute
      exact ⟨hmN.1 ▸ hlt, hmsg⟩

/-- A machine's pages and what is in flight to it are part of the total. -/
theorem freePages_add_le_total {s : Sim} {k : Nat} {m : CoreStateMachine} (hm : s.brains[k]? = some m)
    {e : Nat × Event} (he : e ∈ s.inflight) : m.freePages + e.2.repaidLen ≤ s.total :=
  Nat.add_le_add (le_sum_map_of_getElem? _ hm) (List.le_sum_of_mem (List.mem_map_of_mem he))

section
variable {N T : Nat}

/-- A tick keeps the invariant. -/
theorem Inv.tick (h : Inv N T s) {k : Nat} (hk : k < s.brains.length) : Inv N T (s.deliver k .tick) := by
  obtain ⟨m, hm⟩ : ∃ m, s.brains[k]? = some m := ⟨s.brains[k], List.getElem?_eq_getElem hk⟩
  have hh : Handles m .tick (m.step .tick).1 (m.step .tick).2 :=
    CoreStateMachine.handles_tick (h.wf.brains m (List.mem_of_getElem? hm)).2
  obtain ⟨htotal, htracked, hledger⟩ := deliver_of_handles hm hh
  refine ⟨h.wf.deliver hm hh, by rw [htotal, h.total_eq]; rfl, fun d c => ?_⟩
  rw [htracked, hledger, h.ledger]
  simp [Event.repaidFrom]

/-- Delivering an event in flight keeps the invariant, while the pages fit
in a `u64`. -/
theorem Inv.deliver (hT : T < 2 ^ 64) (h : Inv N T s) {before after : List (Nat × Event)} {dest : Nat}
    {ev : Event} (hs : s.inflight = before ++ (dest, ev) :: after) :
    Inv N T ({ s with inflight := before ++ after }.deliver dest ev) := by
  set s₁ : Sim := { s with inflight := before ++ after }
  have hmem : (dest, ev) ∈ s.inflight := by simp [hs]
  obtain ⟨hdest, hmsg⟩ := h.wf.inflight _ hmem
  have hlt : dest < s.brains.length := h.wf.length_eq ▸ hdest
  obtain ⟨m, hm⟩ : ∃ m, s.brains[dest]? = some m := ⟨s.brains[dest], List.getElem?_eq_getElem hlt⟩
  -- the pages of the machine and of the event are part of the total, below `2 ^ 64`
  have hno : m.freePages + ev.repaidLen < 2 ^ 64 :=
    lt_of_le_of_lt (freePages_add_le_total hm hmem) (h.total_eq ▸ hT)
  have hh := handles_of_isMessage (h.wf.brains m (List.mem_of_getElem? hm)).2 (Or.inr hmsg) hno
  have hwf₁ : s₁.WF N :=
    ⟨h.wf.length_eq, h.wf.brains, h.wf.debts_length, fun e he => h.wf.inflight e
      (by rw [hs]; exact List.mem_append.mpr ((List.mem_append.mp he).imp id (List.mem_cons_of_mem _)))⟩
  obtain ⟨htotal, htracked, hledger⟩ := deliver_of_handles (s := s₁) hm hh
  refine ⟨hwf₁.deliver hm hh, ?_, fun d c => ?_⟩
  · rw [htotal, ← h.total_eq]
    simp only [total, s₁, hs, List.map_append, List.map_cons, List.sum_append, List.sum_cons]
    omega
  · -- the event left the list in flight for the ledger's accepted part
    have hmid := coe_filterMap_middle (fun e => if e.1 = c then e.2.repaidFrom d else none) before after (dest, ev)
    have hif : (if dest = c then (ev.repaidFrom d).toList else []) =
        (if dest = c then ev.repaidFrom d else none).toList := by
      split_ifs <;> rfl
    rw [htracked, hledger, hif]
    have hl := h.ledger d c
    simp only [inTransit, hs] at hl
    rw [hmid] at hl
    exact hl.trans (by simp only [inTransit, recorded, accepted, s₁]; abel)

/-- A loan keeps the invariant, while the pages fit in a `u64`. -/
theorem Inv.lend (hT : T < 2 ^ 64) (h : Inv N T s) {creditor debtor : Nat} {range : Range}
    {mc : CoreStateMachine} (hc : s.brains[creditor]? = some mc) (hd : debtor < s.brains.length)
    (hne : creditor ≠ debtor) (hlen : range.len ≤ mc.freePages) : Inv N T (s.lend creditor debtor range) := by
  obtain ⟨md, hmd⟩ : ∃ md, s.brains[debtor]? = some md := ⟨s.brains[debtor], List.getElem?_eq_getElem hd⟩
  -- first the creditor's pages shrink by the range
  set mc' : CoreStateMachine := { mc with freePages := mc.freePages - range.len } with hmc'_eq
  have hmc' : mc'.freePages = mc.freePages - range.len := rfl
  have hmd₁ : (s.brains.set creditor mc')[debtor]? = some md := by rw [List.getElem?_set_ne hne, hmd]
  have hsum₁ := sum_map_set_add CoreStateMachine.freePages mc' hc
  -- then the debtor's grow by it, without wrapping: they were part of the total
  have hno : md.freePages + range.len < 2 ^ 64 := by
    have hle := le_sum_map_of_getElem? CoreStateMachine.freePages hmd₁
    have htotal := h.total_eq
    unfold total at htotal
    omega
  have hmdN := h.wf.brains md (List.mem_of_getElem? hmd)
  obtain ⟨hcores, hlength, hfit', hfree, -⟩ := CoreStateMachine.borrow_spec hmdN.2 creditor range hno
  have hsum₂ := sum_map_set_add CoreStateMachine.freePages (md.step (.borrowed creditor range)).1 hmd₁
  refine ⟨?_, ?_, fun d c => ?_⟩
  · rw [lend_eq hc hmd hne]
    refine ⟨by simp [h.wf.length_eq], fun m hm => ?_, fun m hm => ?_, h.wf.inflight⟩
    · rcases List.mem_or_eq_of_mem_set hm with hm | rfl
      · rcases List.mem_or_eq_of_mem_set hm with hm | rfl
        · exact h.wf.brains m hm
        · exact h.wf.brains mc (List.mem_of_getElem? hc)
      · exact ⟨hcores.trans hmdN.1, hfit'⟩
    · rcases List.mem_or_eq_of_mem_set hm with hm | rfl
      · rcases List.mem_or_eq_of_mem_set hm with hm | rfl
        · exact h.wf.debts_length m hm
        · exact h.wf.debts_length mc (List.mem_of_getElem? hc)
      · exact hlength.trans (h.wf.debts_length md (List.mem_of_getElem? hmd))
  · rw [lend_eq hc hmd hne, ← hmc'_eq, ← h.total_eq]
    unfold total
    dsimp only
    omega
  · -- only the debtor's record of this loan, and the loan itself, are new
    have hin : (s.lend creditor debtor range).inTransit d c = s.inTransit d c := by
      rw [lend_eq hc hmd hne]; rfl
    have hacc : (s.lend creditor debtor range).accepted d c = s.accepted d c := by
      rw [lend_eq hc hmd hne]; rfl
    rw [tracked_lend hc hmd hne, recorded_lend hc hmd hne hmdN.2 hno, hin, hacc, ← Multiset.coe_add,
      ← Multiset.coe_add, h.ledger]
    abel

/-- Every move keeps the invariant, while the pages fit in a `u64`. -/
theorem Inv.step (hT : T < 2 ^ 64) (h : Inv N T s) {s' : Sim} (hs : Step s s') : Inv N T s' := by
  cases hs with
  | lend hc hd hne hlen => exact h.lend hT hc hd hne hlen
  | tick hk => exact h.tick hk
  | deliver before after dest ev hs => exact h.deliver hT hs

/-- Every execution keeps the invariant, while the pages fit in a `u64`;
by induction on the moves. -/
theorem Inv.reachable (hT : T < 2 ^ 64) (h : Inv N T s) {s' : Sim} (hs : Relation.ReflTransGen Step s s') :
    Inv N T s' := by
  induction hs with
  | refl => exact h
  | tail _ hstep ih => exact ih.step hT hstep

/-- `N` machines as the tests create them: each told `num_cores = N`, with
its own core id, free pages and low watermark. -/
def cores (params : List (Nat × Nat × Nat)) : List CoreStateMachine :=
  params.map fun p => CoreStateMachine.new p.1 params.length p.2.1 p.2.2

theorem inv_init (params : List (Nat × Nat × Nat)) :
    Inv params.length (params.map fun p => p.2.1).sum (init (cores params)) := by
  refine ⟨⟨by simp [init, cores], fun m hm => ?_, fun m hm => ?_, by simp [init]⟩, ?_, fun d c => ?_⟩
  · obtain ⟨p, -, rfl⟩ := List.mem_map.mp hm
    exact ⟨rfl, CoreStateMachine.slotsFit_new _ _ _ _⟩
  · obtain ⟨p, -, rfl⟩ := List.mem_map.mp hm
    exact List.length_replicate
  · simp [total, init, cores, CoreStateMachine.new, Function.comp_def]
  · -- nothing is lent yet, and nothing is recorded
    have hrec : (init (cores params)).recorded d c = [] := by
      unfold recorded
      split
      · rename_i m hm
        obtain ⟨p, -, rfl⟩ := List.mem_map.mp (List.mem_of_getElem? hm)
        exact CoreStateMachine.owed_new _ _ _ _ c
      · rfl
    rw [hrec]
    simp [tracked, inTransit, accepted, init]

theorem debtLedger_balances (params : List (Nat × Nat × Nat)) (hN : params.length ≤ maxCores)
    (hT : (params.map fun p => p.2.1).sum < 2 ^ 64) {s : Sim}
    (hs : Relation.ReflTransGen Step (init (cores params)) s) :
    s.total = (params.map fun p => p.2.1).sum ∧
      (∀ d c, (s.tracked d c : Multiset Range) = s.recorded d c + s.inTransit d c + s.accepted d c) ∧
      ∀ m ∈ s.brains, m.numCores ≤ m.debts.length := by
  have h := (inv_init params).reachable hT hs
  -- `self.debts[c]` for `c < num_cores` stays within the `MAX_CORES` records
  refine ⟨h.total_eq, h.ledger, fun m hm => ?_⟩
  rw [(h.wf.brains m hm).1, h.wf.debts_length m hm]
  exact hN

theorem debtLedger_balances_after_loan :
    ((init (cores [(0, 1000, 300), (1, 1000, 300), (2, 1000, 300)])).lend 0 1 ⟨4096, 400⟩).total =
        ([(0, 1000, 300), (1, 1000, 300), (2, 1000, 300)].map fun p : Nat × Nat × Nat => p.2.1).sum ∧
      (∀ d c, (((init (cores [(0, 1000, 300), (1, 1000, 300), (2, 1000, 300)])).lend 0 1 ⟨4096, 400⟩).tracked d c :
          Multiset Range) =
        ((init (cores [(0, 1000, 300), (1, 1000, 300), (2, 1000, 300)])).lend 0 1 ⟨4096, 400⟩).recorded d c +
          ((init (cores [(0, 1000, 300), (1, 1000, 300), (2, 1000, 300)])).lend 0 1 ⟨4096, 400⟩).inTransit d c +
          ((init (cores [(0, 1000, 300), (1, 1000, 300), (2, 1000, 300)])).lend 0 1 ⟨4096, 400⟩).accepted d c) ∧
      ∀ m ∈ ((init (cores [(0, 1000, 300), (1, 1000, 300), (2, 1000, 300)])).lend 0 1 ⟨4096, 400⟩).brains,
        m.numCores ≤ m.debts.length :=
  debtLedger_balances [(0, 1000, 300), (1, 1000, 300), (2, 1000, 300)] (by decide) (by decide)
    (Relation.ReflTransGen.single
      (@Step.lend _ 0 1 ⟨4096, 400⟩ (CoreStateMachine.new 0 3 1000 300) rfl (by decide) (by decide) (by decide)))

/-- Past `2 ^ 64` pages in all, a loan wraps the debtor's count, and the
total changes. -/
theorem lend_wraps_past_u64 :
    Relation.ReflTransGen Step (init (cores [(0, 2 ^ 64 - 1, 0), (1, 2 ^ 64 - 1, 0)]))
        ((init (cores [(0, 2 ^ 64 - 1, 0), (1, 2 ^ 64 - 1, 0)])).lend 0 1 ⟨0, 1⟩) ∧
      ((init (cores [(0, 2 ^ 64 - 1, 0), (1, 2 ^ 64 - 1, 0)])).lend 0 1 ⟨0, 1⟩).total ≠
        ([(0, 2 ^ 64 - 1, 0), (1, 2 ^ 64 - 1, 0)].map fun p : Nat × Nat × Nat => p.2.1).sum :=
  ⟨Relation.ReflTransGen.single
    (@Step.lend _ 0 1 ⟨0, 1⟩ (CoreStateMachine.new 0 2 (2 ^ 64 - 1) 0) rfl (by decide) (by decide) (by decide)),
    by decide⟩

end

end Sim

end Akuma.Smp
