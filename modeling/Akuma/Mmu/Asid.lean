import Akuma.Lib.WordBitmap

/-!
# The ASID allocator

`AsidAllocator` of `mmu/asid.rs`: the 256 address-space identifiers as a
bitmap of four `u64` words (a `WordBitmap`), and the identifier the next
search starts at. Identifier 0 is never handed out: the search wraps from
255 to 1, and `free` ignores it.

`alloc` tries the identifiers from the hint up to 255 and then from 1 back
to the hint, and takes the first clear bit. Its loop is modelled turn by
turn with a bound on its turns (`allocLoop`). From every state a sequence
of calls reaches, the loop stops within that bound and takes the first
clear identifier of the cyclic order (`alloc_eq`), so the bound cuts off
no run of the source.
-/

namespace Akuma.Mmu

/-- `MAX_ASID`. -/
def maxAsid : Nat := 256

/-- The identifiers `alloc` hands out: `1..MAX_ASID`. -/
def IsAsid (asid : Nat) : Prop := 0 < asid ∧ asid < maxAsid

instance : DecidablePred IsAsid := fun asid => inferInstanceAs (Decidable (0 < asid ∧ asid < maxAsid))

/-- `AsidAllocator`. -/
structure AsidAllocator where
  nextAsid : Nat
  used : List UInt64
  deriving DecidableEq, Repr

namespace AsidAllocator

/-- `AsidAllocator::new`. -/
def new : AsidAllocator := ⟨1, List.replicate 4 0⟩

/-- `if asid + 1 >= MAX_ASID { 1 } else { asid + 1 }`. -/
def wrapNext (asid : Nat) : Nat := if asid + 1 ≥ maxAsid then 1 else asid + 1

/-- The test of `alloc`: the word of `asid` lies in the array and its bit is clear. -/
def isClear (used : List UInt64) (asid : Nat) : Bool :=
  decide (asid / 64 < used.length) && !WordBitmap.test used asid

/-- The loop of `alloc` from `asid`, with at most `fuel` turns left:
`some (some asid)` when it takes `asid`, `some none` when it comes back to
`start`, `none` when the turns run out first. -/
def allocLoop (used : List UInt64) (start : Nat) : Nat → Nat → Option (Option Nat)
  | 0, _ => none
  | fuel + 1, asid =>
    if isClear used asid then some (some asid)
    else if wrapNext asid = start then some none
    else allocLoop used start fuel (wrapNext asid)

/-- `self.used[word] |= 1 << bit` and the hint moved past `asid`. -/
def take (a : AsidAllocator) (asid : Nat) : AsidAllocator :=
  ⟨wrapNext asid, WordBitmap.set a.used asid⟩

/-- What `alloc` returns once its loop has stopped. -/
def settle (a : AsidAllocator) : Option Nat → Option Nat × AsidAllocator
  | some asid => (some asid, a.take asid)
  | none => (none, a)

/-- `alloc`, with at most `MAX_ASID` turns of its loop; `none` if the loop
has not stopped by then. -/
def alloc (a : AsidAllocator) : Option (Option Nat × AsidAllocator) :=
  (allocLoop a.used a.nextAsid maxAsid a.nextAsid).map a.settle

/-- `free`. -/
def free (a : AsidAllocator) (asid : Nat) : AsidAllocator :=
  if asid > 0 ∧ asid < maxAsid then
    if asid / 64 < a.used.length then { a with used := WordBitmap.clear a.used asid } else a
  else a

/-- The identifiers in use: those whose bit is set. -/
def allocated (a : AsidAllocator) (asid : Nat) : Bool :=
  decide (IsAsid asid) && WordBitmap.test a.used asid

/-- The allocator a sequence of calls leaves: the hint is an identifier,
and the bitmap keeps its four words. -/
structure Inv (a : AsidAllocator) : Prop where
  nextAsid_isAsid : IsAsid a.nextAsid
  used_length : a.used.length = 4

/-! ## The cyclic order of the search -/

/-- The `k`-th identifier the search from `start` tries. -/
def cycleAt (start k : Nat) : Nat := (start - 1 + k) % 255 + 1

/-- The identifiers in the order the search from `start` tries them. -/
def searchOrder (start : Nat) : List Nat := (List.range 255).map (cycleAt start)

section Cycle

variable {start : Nat}

theorem isAsid_cycleAt (start k : Nat) : IsAsid (cycleAt start k) := by
  unfold IsAsid cycleAt maxAsid
  omega

theorem cycleAt_zero (hs : IsAsid start) : cycleAt start 0 = start := by
  unfold IsAsid maxAsid at hs
  unfold cycleAt
  omega

/-- The search comes back to `start` after 255 turns and not before. -/
theorem cycleAt_eq_start_iff (hs : IsAsid start) {k : Nat} (hk : 0 < k) (hk' : k ≤ 255) :
    cycleAt start k = start ↔ k = 255 := by
  unfold IsAsid maxAsid at hs
  unfold cycleAt
  omega

theorem wrapNext_cycleAt (start k : Nat) : wrapNext (cycleAt start k) = cycleAt start (k + 1) := by
  unfold wrapNext cycleAt maxAsid
  split_ifs <;> omega

/-- Every identifier comes up in the search. -/
theorem mem_searchOrder (hs : IsAsid start) {asid : Nat} (ha : IsAsid asid) :
    asid ∈ searchOrder start := by
  unfold IsAsid maxAsid at hs ha
  refine List.mem_map.mpr ⟨(asid + 255 - start) % 255, List.mem_range.mpr (Nat.mod_lt _ (by decide)), ?_⟩
  unfold cycleAt
  omega

end Cycle

/-! ## The loop -/

/-- Enough turns make the loop the search for the first clear identifier
of the cyclic order; the induction is on the turns left before the search
is back at `start`. -/
theorem allocLoop_cycleAt (used : List UInt64) {start : Nat} (hs : IsAsid start) :
    ∀ n k fuel, k + n = 255 → 0 < n → n ≤ fuel →
      allocLoop used start fuel (cycleAt start k) =
        some (((List.range' k n).map (cycleAt start)).find? (isClear used)) := by
  intro n
  induction n with
  | zero => intro k fuel _ hn; omega
  | succ n ih =>
    intro k fuel hkn _ hfuel
    obtain ⟨fuel, rfl⟩ : ∃ f, fuel = f + 1 := ⟨fuel - 1, by omega⟩
    rw [allocLoop, List.range'_succ, List.map_cons, List.find?_cons, wrapNext_cycleAt]
    cases hc : isClear used (cycleAt start k) with
    | true => rfl
    | false =>
      rw [if_neg Bool.false_ne_true]
      by_cases hn : n = 0
      · -- the last turn: the search is back at `start`
        subst hn
        rw [if_pos ((cycleAt_eq_start_iff hs (by omega) (by omega)).mpr (by omega))]
        rfl
      · rw [if_neg (fun h => by have := (cycleAt_eq_start_iff hs (by omega) (by omega)).mp h; omega),
          ih (k + 1) fuel (by omega) (by omega) (by omega)]

/-- `alloc` takes the first clear identifier of the cyclic order from the hint. -/
theorem alloc_eq {a : AsidAllocator} (hinv : Inv a) :
    a.alloc = some (a.settle ((searchOrder a.nextAsid).find? (isClear a.used))) := by
  have h := allocLoop_cycleAt a.used hinv.nextAsid_isAsid 255 0 maxAsid rfl (by decide) (by decide)
  rw [cycleAt_zero hinv.nextAsid_isAsid] at h
  rw [alloc, h, Option.map_some, searchOrder, List.range_eq_range']

example : new.alloc = some (some 1, ⟨2, WordBitmap.set (List.replicate 4 0) 1⟩) := by decide

/-! ## What `alloc` and `free` do -/

section Spec

variable {a : AsidAllocator}

theorem isAsid_wrapNext (asid : Nat) : IsAsid (wrapNext asid) := by
  unfold IsAsid wrapNext maxAsid
  split_ifs <;> omega

theorem inv_new : Inv new := ⟨by decide, rfl⟩

/-- For an identifier, the test of `alloc` is its bit being clear. -/
theorem Inv.isClear_eq (hinv : Inv a) {asid : Nat} (ha : IsAsid asid) :
    isClear a.used asid = !a.allocated asid := by
  have hw : asid / 64 < a.used.length := by
    rw [hinv.used_length]
    unfold IsAsid maxAsid at ha
    omega
  simp [isClear, allocated, hw, ha]

theorem Inv.take (hinv : Inv a) (asid : Nat) : Inv (a.take asid) :=
  ⟨isAsid_wrapNext asid, by simp [AsidAllocator.take, hinv.used_length]⟩

/-- Taking an identifier sets its bit and no other. -/
theorem Inv.allocated_take (hinv : Inv a) {asid : Nat} (ha : IsAsid asid) (x : Nat) :
    (a.take asid).allocated x = (a.allocated x || decide (x = asid)) := by
  have hw : asid / 64 < a.used.length := by
    rw [hinv.used_length]
    unfold IsAsid maxAsid at ha
    omega
  by_cases hx : x = asid
  · subst hx
    simp [allocated, AsidAllocator.take, WordBitmap.test_set, hw, ha]
  · simp [allocated, AsidAllocator.take, WordBitmap.test_set, hx]

/-- From a state a sequence of calls reaches, `alloc` stops. It hands out
an identifier not in use, and marks it, exactly when one is free, and
otherwise returns `None` and changes nothing. -/
theorem Inv.alloc_spec (hinv : Inv a) :
    ∃ r, a.alloc = some r ∧ Inv r.2 ∧
      (∀ asid, r.1 = some asid →
        IsAsid asid ∧ a.allocated asid = false ∧ ∀ x, r.2.allocated x = (a.allocated x || decide (x = asid))) ∧
      (r.1 = none ↔ ∀ asid, IsAsid asid → a.allocated asid = true) ∧
      (r.1 = none → r.2 = a) := by
  rw [alloc_eq hinv]
  refine ⟨_, rfl, ?_⟩
  cases hf : (searchOrder a.nextAsid).find? (isClear a.used) with
  | none =>
    dsimp only [settle]
    -- no identifier of the search is clear, and the search tries them all
    have hall : ∀ asid, IsAsid asid → a.allocated asid = true := by
      intro asid ha
      have hc := List.find?_eq_none.mp hf asid (mem_searchOrder hinv.nextAsid_isAsid ha)
      rw [hinv.isClear_eq ha] at hc
      simpa using hc
    exact ⟨hinv, (fun _ h => nomatch h), ⟨fun _ => hall, fun _ => rfl⟩, fun _ => rfl⟩
  | some asid =>
    dsimp only [settle]
    have ha : IsAsid asid := by
      obtain ⟨k, -, rfl⟩ := List.mem_map.mp (List.mem_of_find?_eq_some hf)
      exact isAsid_cycleAt _ _
    have hfree : a.allocated asid = false := by
      have hc := List.find?_some hf
      rw [hinv.isClear_eq ha] at hc
      simpa using hc
    refine ⟨hinv.take asid, ?_, ⟨(fun h => nomatch h), fun hall => ?_⟩, fun h => nomatch h⟩
    · intro x hx
      cases hx
      exact ⟨ha, hfree, hinv.allocated_take ha⟩
    · rw [hall asid ha] at hfree
      cases hfree

theorem Inv.free (hinv : Inv a) (asid : Nat) : Inv (a.free asid) := by
  unfold AsidAllocator.free
  split_ifs
  · exact ⟨hinv.nextAsid_isAsid, by simp [hinv.used_length]⟩
  · exact hinv
  · exact hinv

/-- `free` clears the bit of the identifier it is given and no other. -/
theorem Inv.allocated_free (hinv : Inv a) (asid x : Nat) :
    (a.free asid).allocated x = (a.allocated x && decide (x ≠ asid)) := by
  unfold AsidAllocator.free
  split_ifs with ha hw
  · simp [allocated, WordBitmap.test_clear, Bool.and_assoc]
  · -- the four words hold every identifier's bit
    rw [hinv.used_length] at hw
    unfold maxAsid at ha
    omega
  · -- not an identifier: nothing to clear, and its bit is not counted
    by_cases hx : x = asid
    · subst hx
      simp [allocated, IsAsid, ha]
    · simp [hx]

/-- `free` of an identifier not in use leaves the allocator as it was. -/
theorem free_of_not_allocated {asid : Nat} (h : a.allocated asid = false) :
    a.free asid = a := by
  unfold AsidAllocator.free
  split_ifs with ha
  · -- the bit is clear already, so clearing it changes no word
    have hclear : WordBitmap.test a.used asid = false := by
      simpa [allocated, IsAsid, ha] using h
    have hused : WordBitmap.clear a.used asid = a.used := by
      refine WordBitmap.eq_of_test (WordBitmap.length_clear _ _) fun i => ?_
      rw [WordBitmap.test_clear]
      by_cases hi : i = asid
      · subst hi
        simp [hclear]
      · simp [hi]
    rw [hused]
  · rfl
  · rfl

end Spec

/-! ## Sequences of calls -/

/-- The calls made on the allocator. -/
inductive AsidOp where
  | alloc
  | free (asid : Nat)
  deriving DecidableEq, Repr

/-- One call; `none` when the loop of `alloc` does not stop. -/
def step (a : AsidAllocator) : AsidOp → Option AsidAllocator
  | .alloc => a.alloc.map Prod.snd
  | .free asid => some (a.free asid)

/-- A sequence of calls from `a`. -/
def run (a : AsidAllocator) : List AsidOp → Option AsidAllocator
  | [] => some a
  | op :: ops => (a.step op).bind fun a' => a'.run ops

theorem Inv.step {a : AsidAllocator} (hinv : Inv a) (op : AsidOp) : ∃ a', a.step op = some a' ∧ Inv a' := by
  cases op with
  | alloc =>
    obtain ⟨r, hr, hinv', -⟩ := hinv.alloc_spec
    exact ⟨r.2, by rw [AsidAllocator.step, hr]; rfl, hinv'⟩
  | free asid => exact ⟨_, rfl, hinv.free asid⟩

/-- Every call of a sequence stops, and the state it leaves satisfies the
invariant; by induction on the calls. -/
theorem Inv.run {a : AsidAllocator} (hinv : Inv a) : ∀ ops, ∃ a', a.run ops = some a' ∧ Inv a'
  | [] => ⟨a, rfl, hinv⟩
  | op :: ops => by
    obtain ⟨a₁, h₁, hinv₁⟩ := hinv.step op
    obtain ⟨a₂, h₂, hinv₂⟩ := hinv₁.run ops
    exact ⟨a₂, by rw [AsidAllocator.run, h₁, Option.bind_some, h₂], hinv₂⟩

theorem asidAllocator_alloc_free (ops : List AsidOp) :
    ∃ a, new.run ops = some a ∧
      (∃ r, a.alloc = some r ∧
        (∀ asid, r.1 = some asid → IsAsid asid ∧ a.allocated asid = false ∧
          ∀ x, r.2.allocated x = (a.allocated x || decide (x = asid))) ∧
        (r.1 = none ↔ ∀ asid, IsAsid asid → a.allocated asid = true)) ∧
      (∀ asid, a.allocated asid = true →
        (∀ x, (a.free asid).allocated x = (a.allocated x && decide (x ≠ asid))) ∧
          ∃ asid', ((a.free asid).alloc).map Prod.fst = some (some asid')) ∧
      (∀ asid, a.allocated asid = false → a.free asid = a) := by
  obtain ⟨a, hrun, hinv⟩ := inv_new.run ops
  obtain ⟨r, hr, -, hsome, hnone, -⟩ := hinv.alloc_spec
  refine ⟨a, hrun, ⟨r, hr, hsome, hnone⟩, fun asid hused => ⟨hinv.allocated_free asid, ?_⟩,
    fun asid h => free_of_not_allocated h⟩
  -- after the free, `asid` is clear, so the next `alloc` finds an identifier
  have hinv' := hinv.free asid
  obtain ⟨r', hr', -, -, hnone', -⟩ := hinv'.alloc_spec
  have hasid : IsAsid asid := by
    simp only [allocated, Bool.and_eq_true, decide_eq_true_eq] at hused
    exact hused.1
  cases hr1 : r'.1 with
  | some asid' => exact ⟨asid', by rw [hr', Option.map_some, hr1]⟩
  | none =>
    have := hnone'.mp hr1 asid hasid
    simp [hinv.allocated_free] at this

end AsidAllocator

end Akuma.Mmu
