import Mathlib

/-!
# Bitmaps of 64-bit words

A set of natural numbers kept as a list of `u64` words, bit `i % 64` of
word `i / 64` standing for `i`, as a word-bitmap allocator keeps its free
pages. The operations are the ones such an allocator writes: the test,
the set and the clear of one bit (an index past the last word reads as
clear and is never written), the number of set bits below a bound, and
`u64::trailing_zeros`, the lowest set bit of a word.

The lemmas say how each operation changes the test of every index and
the count, and that the words are determined by their bits, which is
what an allocator that undoes its own writes needs.
-/

namespace WordBitmap

/-- The mask `1 << (b % 64)` of bit `b` of a word. -/
def bit (b : Nat) : UInt64 := 1 <<< (b % 64).toUInt64

/-- Bit `i` of the bitmap. -/
def test (ws : List UInt64) (i : Nat) : Bool :=
  match ws[i / 64]? with
  | some w => w &&& bit i ≠ 0
  | none => false

/-- Set bit `i`. -/
def set (ws : List UInt64) (i : Nat) : List UInt64 :=
  ws.modify (i / 64) (· ||| bit i)

/-- Clear bit `i`. -/
def clear (ws : List UInt64) (i : Nat) : List UInt64 :=
  ws.modify (i / 64) (· &&& ~~~bit i)

/-- The number of set bits below `n`. -/
def count (ws : List UInt64) (n : Nat) : Nat :=
  ((Finset.range n).filter (fun i => test ws i = true)).card

/-- `u64::trailing_zeros`: the lowest set bit of a word, `64` for zero. -/
def trailingZeros (w : UInt64) : Nat :=
  ((List.range 64).find? (fun b => w.toNat.testBit b)).getD 64

/-! ## Words -/

section Words

theorem toNat_bit (b : Nat) : (bit b).toNat = 2 ^ (b % 64) := by
  rw [bit, UInt64.toNat_shiftLeft]
  have h : (b % 64).toUInt64.toNat = b % 64 := by
    rw [Nat.toUInt64_eq, UInt64.toNat_ofNat']
    exact Nat.mod_eq_of_lt (by omega)
  rw [h, Nat.mod_mod, UInt64.toNat_one, Nat.one_shiftLeft]
  exact Nat.mod_eq_of_lt (Nat.pow_lt_pow_right (by decide) (Nat.mod_lt _ (by decide)))

theorem and_bit_ne_zero (w : UInt64) (b : Nat) :
    w &&& bit b ≠ 0 ↔ w.toNat.testBit (b % 64) = true := by
  rw [ne_eq, ← UInt64.toNat_inj, UInt64.toNat_and, toNat_bit,
    show (0 : UInt64).toNat = 0 from rfl, Nat.and_two_pow]
  cases w.toNat.testBit (b % 64) <;> simp

/-- A word has no bits at 64 and above. -/
theorem testBit_lt_64 {w : UInt64} {j : Nat} (h : w.toNat.testBit j = true) : j < 64 := by
  by_contra hj
  have hlt : w.toNat < 2 ^ j :=
    lt_of_lt_of_le w.toNat_lt (Nat.pow_le_pow_right (by decide) (by omega))
  rw [Nat.testBit_lt_two_pow hlt] at h
  exact Bool.false_ne_true h

theorem testBit_or_bit (w : UInt64) (b j : Nat) :
    (w ||| bit b).toNat.testBit j = (decide (j = b % 64) || w.toNat.testBit j) := by
  rw [UInt64.toNat_or, Nat.testBit_or, toNat_bit, Nat.testBit_two_pow]
  grind

theorem testBit_and_not_bit (w : UInt64) (b : Nat) {j : Nat} (hj : j < 64) :
    (w &&& ~~~bit b).toNat.testBit j = (!decide (j = b % 64) && w.toNat.testBit j) := by
  rw [UInt64.toNat_and, Nat.testBit_and, UInt64.toNat_not, toNat_bit]
  -- the complement of one bit, read below the word size
  have hmask : (UInt64.size - 1 - 2 ^ (b % 64)).testBit j = !decide (j = b % 64) := by
    have hb : b % 64 < 64 := Nat.mod_lt _ (by decide)
    have hlt : 2 ^ (b % 64) < 2 ^ 64 := Nat.pow_lt_pow_right (by decide) hb
    rw [show UInt64.size - 1 - 2 ^ (b % 64) = 2 ^ 64 - (2 ^ (b % 64) + 1) by
        rw [show UInt64.size = 2 ^ 64 from rfl]; omega,
      Nat.testBit_two_pow_sub_succ hlt, Nat.testBit_two_pow]
    simp [hj, eq_comm]
  rw [hmask, Bool.and_comm]

/-- Words are equal when all their bits below 64 are. -/
theorem eq_of_testBit {w w' : UInt64} (h : ∀ j < 64, w.toNat.testBit j = w'.toNat.testBit j) :
    w = w' := by
  rw [← UInt64.toNat_inj]
  apply Nat.eq_of_testBit_eq
  intro j
  by_cases hj : j < 64
  · exact h j hj
  · have h1 : w.toNat.testBit j = false := by
      cases hw : w.toNat.testBit j
      · rfl
      · exact absurd (testBit_lt_64 hw) hj
    have h2 : w'.toNat.testBit j = false := by
      cases hw : w'.toNat.testBit j
      · rfl
      · exact absurd (testBit_lt_64 hw) hj
    rw [h1, h2]

/-- The lowest set bit of a non-zero word is a set bit. -/
theorem trailingZeros_spec {w : UInt64} (hw : w ≠ 0) :
    trailingZeros w < 64 ∧ w.toNat.testBit (trailingZeros w) = true := by
  have hne : w.toNat ≠ 0 := fun h => hw (UInt64.toNat_inj.mp h)
  obtain ⟨j, hj⟩ := Nat.exists_testBit_of_ne_zero hne
  have hsome : ((List.range 64).find? (fun b => w.toNat.testBit b)).isSome := by
    rw [List.find?_isSome]
    exact ⟨j, List.mem_range.mpr (testBit_lt_64 hj), hj⟩
  obtain ⟨b, hb⟩ := Option.isSome_iff_exists.mp hsome
  rw [trailingZeros, hb, Option.getD_some]
  exact ⟨List.mem_range.mp (List.mem_of_find?_eq_some hb), List.find?_some hb⟩

end Words

/-! ## Bits of the bitmap -/

section Bits

variable (ws : List UInt64)

@[simp] theorem length_set (i : Nat) : (set ws i).length = ws.length :=
  List.length_modify ..

@[simp] theorem length_clear (i : Nat) : (clear ws i).length = ws.length :=
  List.length_modify ..

/-- A bit read through its word; the words past the end are zero. -/
theorem test_eq (i : Nat) : test ws i = (ws.getD (i / 64) 0).toNat.testBit (i % 64) := by
  rw [List.getD_eq_getElem?_getD, test]
  cases ws[i / 64]? with
  | none => simp
  | some w =>
    rw [Option.getD_some, Bool.eq_iff_iff, decide_eq_true_iff]
    exact and_bit_ne_zero w i

theorem test_of_length_le {i : Nat} (h : ws.length ≤ i / 64) : test ws i = false := by
  simp [test, List.getElem?_eq_none h]

theorem lt_length_of_test {i : Nat} (h : test ws i = true) : i / 64 < ws.length := by
  by_contra hi
  rw [test_of_length_le ws (by omega)] at h
  exact Bool.false_ne_true h

theorem getD_modify (k : Nat) (f : UInt64 → UInt64) (j : Nat) :
    (ws.modify k f).getD j 0 = if k = j then (ws[j]?.map f).getD 0 else ws.getD j 0 := by
  rw [List.getD_eq_getElem?_getD, List.getElem?_modify, List.getD_eq_getElem?_getD]
  split <;> cases ws[j]? <;> rfl

/-- Clearing a bit clears it and nothing else. -/
theorem test_clear (p i : Nat) : test (clear ws p) i = (test ws i && decide (i ≠ p)) := by
  rw [test_eq, test_eq, clear, getD_modify]
  have hi : i % 64 < 64 := Nat.mod_lt _ (by decide)
  by_cases hw : p / 64 = i / 64
  · rw [if_pos hw]
    cases h : ws[i / 64]? with
    | none => simp [List.getD_eq_getElem?_getD, h]
    | some w =>
      rw [Option.map_some, Option.getD_some, testBit_and_not_bit w p hi,
        List.getD_eq_getElem?_getD, h, Option.getD_some]
      -- in the same word, the same bit exactly when the same offset
      have hiff : (i % 64 = p % 64) ↔ (i = p) := by omega
      by_cases hip : i = p <;> simp [hip, hiff]
  · rw [if_neg hw]
    have hip : i ≠ p := fun h => hw (by rw [h])
    simp [hip]

/-- Setting a bit inside the bitmap sets it and nothing else. -/
theorem test_set (p i : Nat) :
    test (set ws p) i = (test ws i || decide (i = p ∧ p / 64 < ws.length)) := by
  rw [test_eq, test_eq, set, getD_modify]
  by_cases hw : p / 64 = i / 64
  · rw [if_pos hw]
    cases h : ws[i / 64]? with
    | none =>
      have hlen : ws.length ≤ i / 64 := List.getElem?_eq_none_iff.mp h
      have hp : ¬(i = p ∧ p / 64 < ws.length) := fun ⟨_, hp⟩ => by omega
      simp [List.getD_eq_getElem?_getD, h, hp]
    | some w =>
      have hlen : i / 64 < ws.length := by
        by_contra hn
        rw [List.getElem?_eq_none (by omega)] at h
        cases h
      rw [Option.map_some, Option.getD_some, testBit_or_bit, List.getD_eq_getElem?_getD, h,
        Option.getD_some]
      have hiff : (i % 64 = p % 64) ↔ (i = p) := by omega
      by_cases hip : i = p
      · subst hip
        simp [hlen]
      · simp [hip, hiff]
  · rw [if_neg hw]
    have hip : ¬(i = p ∧ p / 64 < ws.length) := fun ⟨h, _⟩ => hw (by rw [h])
    simp [hip]

/-- Bitmaps of the same length with the same bits are equal. -/
theorem eq_of_test {ws ws' : List UInt64} (hlen : ws.length = ws'.length)
    (h : ∀ i, test ws i = test ws' i) : ws = ws' := by
  apply List.ext_getElem hlen
  intro k hk hk'
  apply eq_of_testBit
  intro j hj
  have hi := h (k * 64 + j)
  have hdiv : (k * 64 + j) / 64 = k := by omega
  have hmod : (k * 64 + j) % 64 = j := by omega
  rwa [test_eq, test_eq, hdiv, hmod, List.getD_eq_getElem _ _ hk,
    List.getD_eq_getElem _ _ hk'] at hi

/-- The lowest set bit of a non-zero word of the bitmap is set. -/
theorem test_trailingZeros {k : Nat} {w : UInt64} (hk : ws[k]? = some w) (hw : w ≠ 0) :
    trailingZeros w < 64 ∧ test ws (k * 64 + trailingZeros w) = true := by
  obtain ⟨hlt, hbit⟩ := trailingZeros_spec hw
  have hdiv : (k * 64 + trailingZeros w) / 64 = k := by omega
  have hmod : (k * 64 + trailingZeros w) % 64 = trailingZeros w := by omega
  refine ⟨hlt, ?_⟩
  rwa [test_eq, hdiv, hmod, List.getD_eq_getElem?_getD, hk, Option.getD_some]

/-- Clearing the bits of a list of indices, one after another. -/
theorem test_foldl_clear (l : List Nat) (i : Nat) :
    test (l.foldl clear ws) i = (test ws i && decide (i ∉ l)) := by
  induction l generalizing ws with
  | nil => simp
  | cons p l ih =>
    rw [List.foldl_cons, ih, test_clear]
    by_cases hip : i = p <;> simp [hip]

@[simp] theorem length_foldl_clear (l : List Nat) : (l.foldl clear ws).length = ws.length := by
  induction l generalizing ws with
  | nil => rfl
  | cons p l ih => rw [List.foldl_cons, ih, length_clear]

/-- Every bit of a word of all ones is set. -/
theorem test_replicate_allOnes (k i : Nat) :
    test (List.replicate k (~~~0)) i = decide (i / 64 < k) := by
  rw [test_eq]
  by_cases hi : i / 64 < k
  · rw [List.getD_eq_getElem _ _ (by simpa using hi), List.getElem_replicate, UInt64.toNat_not,
      show (0 : UInt64).toNat = 0 from rfl, show UInt64.size - 1 - 0 = 2 ^ 64 - 1 from rfl,
      Nat.testBit_two_pow_sub_one]
    simp [hi, Nat.mod_lt]
  · rw [List.getD_eq_default _ _ (by simpa using hi)]
    simp [hi]

/-- And-ing word `k` with a mask keeps the bits of that word the mask has. -/
theorem test_modify_and (k : Nat) (m : UInt64) (i : Nat) :
    test (ws.modify k (· &&& m)) i =
      (test ws i && (decide (k ≠ i / 64) || m.toNat.testBit (i % 64))) := by
  rw [test_eq, test_eq, getD_modify]
  by_cases hk : k = i / 64
  · rw [if_pos hk]
    cases h : ws[i / 64]? with
    | none => simp [List.getD_eq_getElem?_getD, h]
    | some w =>
      rw [Option.map_some, Option.getD_some, UInt64.toNat_and, Nat.testBit_and,
        List.getD_eq_getElem?_getD, h, Option.getD_some]
      simp [hk]
  · rw [if_neg hk]
    simp [hk]

/-- A zero word has no set bits. -/
theorem test_of_getD_eq_zero {i : Nat} (h : ws.getD (i / 64) 0 = 0) : test ws i = false := by
  rw [test_eq, h, show (0 : UInt64).toNat = 0 from rfl, Nat.zero_testBit]

end Bits

/-! ## Counting set bits -/

section Count

variable {ws ws' : List UInt64} {n : Nat}

theorem count_le (ws : List UInt64) (n : Nat) : count ws n ≤ n := by
  calc count ws n ≤ (Finset.range n).card := Finset.card_filter_le _ _
    _ = n := Finset.card_range n

theorem count_congr (h : ∀ i < n, test ws i = test ws' i) : count ws n = count ws' n := by
  unfold count
  congr 1
  apply Finset.filter_congr
  intro i hi
  rw [h i (Finset.mem_range.mp hi)]

/-- Clearing a set bit below `n` takes one off the count. -/
theorem count_clear {p : Nat} (hp : p < n) (h : test ws p = true) :
    count (clear ws p) n + 1 = count ws n := by
  have hset : (Finset.range n).filter (fun i => test (clear ws p) i = true) =
      ((Finset.range n).filter (fun i => test ws i = true)).erase p := by
    ext i
    simp only [Finset.mem_filter, Finset.mem_erase, Finset.mem_range, test_clear,
      Bool.and_eq_true, decide_eq_true_eq]
    tauto
  have hmem : p ∈ (Finset.range n).filter (fun i => test ws i = true) :=
    Finset.mem_filter.mpr ⟨Finset.mem_range.mpr hp, h⟩
  rw [count, hset, Finset.card_erase_of_mem hmem, count]
  have : 0 < ((Finset.range n).filter (fun i => test ws i = true)).card :=
    Finset.card_pos.mpr ⟨p, hmem⟩
  omega

/-- Setting a clear bit below `n`, inside the bitmap, adds one to the count. -/
theorem count_set {p : Nat} (hp : p < n) (hlen : p / 64 < ws.length) (h : test ws p = false) :
    count (set ws p) n = count ws n + 1 := by
  have hset : (Finset.range n).filter (fun i => test (set ws p) i = true) =
      insert p ((Finset.range n).filter (fun i => test ws i = true)) := by
    ext i
    simp only [Finset.mem_filter, Finset.mem_insert, Finset.mem_range, test_set,
      Bool.or_eq_true, decide_eq_true_eq]
    constructor
    · rintro ⟨hi, h1 | ⟨rfl, -⟩⟩
      · exact Or.inr ⟨hi, h1⟩
      · exact Or.inl rfl
    · rintro (rfl | ⟨hi, h1⟩)
      · exact ⟨hp, Or.inr ⟨rfl, hlen⟩⟩
      · exact ⟨hi, Or.inl h1⟩
  have hnot : p ∉ (Finset.range n).filter (fun i => test ws i = true) := by
    simp [h]
  rw [count, hset, Finset.card_insert_of_notMem hnot, count]

/-- Clearing set bits below `n`, each once, takes them off the count. -/
theorem count_foldl_clear {l : List Nat} (hnodup : l.Nodup)
    (hl : ∀ p ∈ l, p < n ∧ test ws p = true) : count (l.foldl clear ws) n + l.length = count ws n := by
  induction l generalizing ws with
  | nil => rfl
  | cons p l ih =>
    obtain ⟨hp, hl'⟩ := List.nodup_cons.mp hnodup
    have hrest : ∀ q ∈ l, q < n ∧ test (clear ws p) q = true := by
      intro q hq
      have hqp : q ≠ p := fun h => hp (h ▸ hq)
      obtain ⟨hqn, hqt⟩ := hl q (List.mem_cons_of_mem p hq)
      exact ⟨hqn, by simp [test_clear, hqt, hqp]⟩
    obtain ⟨hpn, hpt⟩ := hl p List.mem_cons_self
    rw [List.foldl_cons, List.length_cons, ← Nat.add_assoc, ih hl' hrest]
    exact count_clear hpn hpt

/-- The count of a bitmap whose bits below `n` are those from `k` on. -/
theorem count_of_test_eq {k : Nat} (h : ∀ i < n, test ws i = decide (k ≤ i)) : count ws n = n - k := by
  have hset : (Finset.range n).filter (fun i => test ws i = true) = Finset.Ico k n := by
    ext i
    simp only [Finset.mem_filter, Finset.mem_range, Finset.mem_Ico]
    constructor
    · rintro ⟨hi, ht⟩
      rw [h i hi, decide_eq_true_iff] at ht
      exact ⟨ht, hi⟩
    · rintro ⟨hk, hi⟩
      exact ⟨hi, by rw [h i hi, decide_eq_true_iff]; exact hk⟩
  rw [count, hset, Nat.card_Ico]

end Count

end WordBitmap
