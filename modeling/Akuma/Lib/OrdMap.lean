import Mathlib

/-!
# Ordered maps as sorted association lists

A finite map whose keys lie in a linear order, kept as the list of its
entries in ascending key order: the in-order walk of an ordered tree map.
The order is a field of the structure, so every map that can be built has
unique keys, and `insert` and `erase` keep it.

Besides lookup, the module gives what a proof that counts over the values
needs: how `sumBy` changes when an entry is inserted, erased or filtered
out.
-/

/-- Entries in strictly ascending key order. -/
structure OrdMap (κ α : Type) [LinearOrder κ] where
  entries : List (κ × α)
  sorted : entries.Pairwise (fun a b => a.1 < b.1)

namespace OrdMap

variable {κ α : Type} [LinearOrder κ]

/-! ## Lists sorted by key -/

/-- Insert `(k, v)` into a list sorted by key, replacing the entry at `k`. -/
def insertList (k : κ) (v : α) : List (κ × α) → List (κ × α)
  | [] => [(k, v)]
  | (k', v') :: es =>
    if k < k' then (k, v) :: (k', v') :: es
    else if k = k' then (k, v) :: es
    else (k', v') :: insertList k v es

/-- The value at `k` in an association list: its first entry with that key. -/
def lookupList (k : κ) (es : List (κ × α)) : Option α :=
  (es.find? (fun e => e.1 = k)).map (·.2)

/-- Sum of `f` over the values of an association list. -/
def sumList (f : α → Nat) (es : List (κ × α)) : Nat :=
  (es.map (fun e => f e.2)).sum

@[simp] theorem lookupList_nil (k : κ) : lookupList k ([] : List (κ × α)) = none := rfl

theorem lookupList_cons (k k' : κ) (v' : α) (es : List (κ × α)) :
    lookupList k ((k', v') :: es) = if k' = k then some v' else lookupList k es := by
  by_cases h : k' = k <;> simp [lookupList, h]

omit [LinearOrder κ] in
@[simp] theorem sumList_nil (f : α → Nat) : sumList f ([] : List (κ × α)) = 0 := rfl

omit [LinearOrder κ] in
@[simp] theorem sumList_cons (f : α → Nat) (e : κ × α) (es : List (κ × α)) :
    sumList f (e :: es) = f e.2 + sumList f es := by
  simp [sumList]

theorem mem_insertList {k : κ} {v : α} {e : κ × α} :
    ∀ {es : List (κ × α)}, e ∈ insertList k v es → e = (k, v) ∨ e ∈ es
  | [], h => by simpa [insertList] using h
  | (k', v') :: es, h => by
    unfold insertList at h
    split_ifs at h
    · simpa using h
    · simp only [List.mem_cons] at h ⊢
      tauto
    · simp only [List.mem_cons] at h ⊢
      rcases h with h | h
      · exact .inr (.inl h)
      · rcases mem_insertList h with h | h
        · exact .inl h
        · exact .inr (.inr h)

theorem insertList_sorted (k : κ) (v : α) :
    ∀ {es : List (κ × α)}, es.Pairwise (fun a b => a.1 < b.1) →
      (insertList k v es).Pairwise (fun a b => a.1 < b.1)
  | [], _ => by simp [insertList]
  | (k', v') :: es, h => by
    rw [List.pairwise_cons] at h
    unfold insertList
    split_ifs with hlt heq
    · refine List.Pairwise.cons ?_ (List.Pairwise.cons h.1 h.2)
      intro b hb
      rcases List.mem_cons.mp hb with rfl | hb
      · exact hlt
      · exact lt_trans hlt (h.1 b hb)
    · subst heq
      exact List.Pairwise.cons h.1 h.2
    · have hgt : k' < k := lt_of_le_of_ne (not_lt.mp hlt) (Ne.symm heq)
      refine List.Pairwise.cons ?_ (insertList_sorted k v h.2)
      intro b hb
      rcases mem_insertList hb with rfl | hb
      · exact hgt
      · exact h.1 b hb

/-- In a sorted list no entry after the head has the head's key. -/
theorem lookupList_eq_none_of_lt {k : κ} :
    ∀ {es : List (κ × α)}, (∀ b ∈ es, k < b.1) → lookupList k es = none
  | [], _ => rfl
  | (k', v') :: es, h => by
    rw [lookupList_cons, if_neg (ne_of_gt (h _ List.mem_cons_self)),
      lookupList_eq_none_of_lt (fun b hb => h b (List.mem_cons_of_mem _ hb))]

theorem lookupList_insertList (k j : κ) (v : α) :
    ∀ es : List (κ × α), lookupList j (insertList k v es) = if j = k then some v else lookupList j es
  | [] => by
    by_cases h : j = k
    · simp [insertList, lookupList_cons, h]
    · simp [insertList, lookupList_cons, Ne.symm h, h]
  | (k', v') :: es => by
    have ih := lookupList_insertList k j v es
    by_cases hlt : k < k'
    · -- the new entry goes first
      rw [insertList, if_pos hlt, lookupList_cons]
      by_cases h : j = k
      · simp [h]
      · rw [if_neg (Ne.symm h), if_neg h]
    · by_cases heq : k = k'
      · -- the entry at `k` is replaced
        subst heq
        rw [insertList, if_neg hlt, if_pos rfl, lookupList_cons, lookupList_cons]
        by_cases h : j = k
        · simp [h]
        · simp [Ne.symm h, h]
      · rw [insertList, if_neg hlt, if_neg heq, lookupList_cons, lookupList_cons, ih]
        by_cases h : j = k
        · simp [h, Ne.symm heq]
        · simp [h]

theorem filter_ne_of_lookupList_eq_none {k : κ} :
    ∀ {es : List (κ × α)}, lookupList k es = none → es.filter (fun e => e.1 ≠ k) = es
  | [], _ => rfl
  | (k', v') :: es, h => by
    rw [lookupList_cons] at h
    split_ifs at h with hk
    rw [List.filter_cons_of_pos (by simpa using hk), filter_ne_of_lookupList_eq_none h]

/-- Erasing a key just inserted where there was none gives the list back. -/
theorem filter_ne_insertList_of_lookupList_eq_none {k : κ} (v : α) :
    ∀ {es : List (κ × α)}, lookupList k es = none →
      (insertList k v es).filter (fun e => e.1 ≠ k) = es
  | [], _ => by simp [insertList]
  | (k', v') :: es, h => by
    have hne : k' ≠ k := by
      intro hk; rw [lookupList_cons, if_pos hk] at h; cases h
    have hrest : lookupList k es = none := by rwa [lookupList_cons, if_neg hne] at h
    unfold insertList
    split_ifs with hlt heq
    · -- the new entry went first
      rw [List.filter_cons_of_neg (by simp), filter_ne_of_lookupList_eq_none h]
    · exact absurd heq.symm hne
    · rw [List.filter_cons_of_pos (by simpa using hne),
        filter_ne_insertList_of_lookupList_eq_none v hrest]

theorem lookupList_filter_ne (k j : κ) :
    ∀ es : List (κ × α), lookupList j (es.filter (fun e => e.1 ≠ k)) =
      if j = k then none else lookupList j es
  | [] => by simp [lookupList]
  | (k', v') :: es => by
    have ih := lookupList_filter_ne k j es
    by_cases hk : k' = k
    · -- the entry at `k` is dropped
      subst hk
      rw [List.filter_cons_of_neg (by simp), ih, lookupList_cons]
      by_cases h : j = k'
      · simp [h]
      · simp [h, Ne.symm h]
    · rw [List.filter_cons_of_pos (by simpa using hk), lookupList_cons, lookupList_cons, ih]
      by_cases h : j = k
      · simp [h, hk]
      · simp [h]

theorem sumList_insertList (f : α → Nat) (k : κ) (v : α) :
    ∀ {es : List (κ × α)}, es.Pairwise (fun a b => a.1 < b.1) →
      sumList f (insertList k v es) + ((lookupList k es).map f).getD 0 = sumList f es + f v
  | [], _ => by simp [insertList]
  | (k', v') :: es, h => by
    rw [List.pairwise_cons] at h
    unfold insertList
    split_ifs with hlt heq
    · -- a new key below every key of the list
      have hnone : lookupList k ((k', v') :: es) = none := by
        apply lookupList_eq_none_of_lt
        intro b hb
        rcases List.mem_cons.mp hb with rfl | hb
        · exact hlt
        · exact lt_trans hlt (h.1 b hb)
      simp [hnone]
      omega
    · -- the entry at `k` is replaced
      subst heq
      simp [lookupList_cons]
      omega
    · have ih := sumList_insertList f k v h.2
      rw [lookupList_cons, if_neg (Ne.symm heq)]
      simp only [sumList_cons]
      omega

theorem sumList_filter_ne (f : α → Nat) (k : κ) :
    ∀ {es : List (κ × α)}, es.Pairwise (fun a b => a.1 < b.1) →
      sumList f (es.filter (fun e => e.1 ≠ k)) + ((lookupList k es).map f).getD 0 = sumList f es
  | [], _ => rfl
  | (k', v') :: es, h => by
    rw [List.pairwise_cons] at h
    have ih := sumList_filter_ne f k h.2
    by_cases heq : k' = k
    · -- the only entry at `k`: the rest of the list lies above it
      subst heq
      have hrest : lookupList k' es = none := lookupList_eq_none_of_lt h.1
      rw [hrest] at ih
      simp [lookupList_cons] at ih ⊢
      omega
    · rw [lookupList_cons, if_neg heq, List.filter_cons_of_pos (by simpa using heq)]
      simp only [sumList_cons]
      omega

omit [LinearOrder κ] in
theorem sumList_filter_of_zero (f : α → Nat) (p : α → Bool) (hp : ∀ v, p v = false → f v = 0) :
    ∀ es : List (κ × α), sumList f (es.filter (fun e => p e.2)) = sumList f es
  | [] => rfl
  | (k', v') :: es => by
    have ih := sumList_filter_of_zero f p hp es
    by_cases hv : p v' = true
    · rw [List.filter_cons_of_pos (by simpa using hv)]
      simp [ih]
    · rw [List.filter_cons_of_neg (by simpa using hv)]
      simp [ih, hp v' (by simpa using hv)]

/-! ## The map -/

/-- The map with no entries. -/
def empty : OrdMap κ α := ⟨[], List.Pairwise.nil⟩

/-- The value at `k`. -/
def get? (m : OrdMap κ α) (k : κ) : Option α := lookupList k m.entries

/-- The map with `k` set to `v`, replacing an entry at `k`. -/
def insert (m : OrdMap κ α) (k : κ) (v : α) : OrdMap κ α :=
  ⟨insertList k v m.entries, insertList_sorted k v m.sorted⟩

/-- The map without an entry at `k`. -/
def erase (m : OrdMap κ α) (k : κ) : OrdMap κ α :=
  ⟨m.entries.filter (fun e => e.1 ≠ k), m.sorted.filter _⟩

/-- The entries whose value satisfies `p`. -/
def filterVals (p : α → Bool) (m : OrdMap κ α) : OrdMap κ α :=
  ⟨m.entries.filter (fun e => p e.2), m.sorted.filter _⟩

/-- The map with each value replaced by `f` of its key and value. -/
def mapVals {β : Type} (f : κ → α → β) (m : OrdMap κ α) : OrdMap κ β :=
  ⟨m.entries.map (fun e => (e.1, f e.1 e.2)), List.pairwise_map.mpr m.sorted⟩

/-- The keys, in ascending order. -/
def keys (m : OrdMap κ α) : List κ := m.entries.map (·.1)

/-- The values, in the order of their keys. -/
def values (m : OrdMap κ α) : List α := m.entries.map (·.2)

/-- Sum of `f` over the values. -/
def sumBy (f : α → Nat) (m : OrdMap κ α) : Nat := sumList f m.entries

@[simp] theorem sumBy_empty (f : α → Nat) : sumBy f (empty : OrdMap κ α) = 0 := rfl

/-- Inserting at `k` adds the new value and drops the one it replaces. -/
theorem sumBy_insert (f : α → Nat) (m : OrdMap κ α) (k : κ) (v : α) :
    sumBy f (m.insert k v) + ((m.get? k).map f).getD 0 = sumBy f m + f v :=
  sumList_insertList f k v m.sorted

/-- Erasing `k` drops the value at `k`. -/
theorem sumBy_erase (f : α → Nat) (m : OrdMap κ α) (k : κ) :
    sumBy f (m.erase k) + ((m.get? k).map f).getD 0 = sumBy f m :=
  sumList_filter_ne f k m.sorted

@[simp] theorem get?_insert (m : OrdMap κ α) (k j : κ) (v : α) :
    (m.insert k v).get? j = if j = k then some v else m.get? j :=
  lookupList_insertList k j v m.entries

@[simp] theorem get?_erase (m : OrdMap κ α) (k j : κ) :
    (m.erase k).get? j = if j = k then none else m.get? j :=
  lookupList_filter_ne k j m.entries

@[simp] theorem get?_empty (k : κ) : (empty : OrdMap κ α).get? k = none := rfl

theorem le_sumBy_of_get? {f : α → Nat} {m : OrdMap κ α} {k : κ} {v : α}
    (h : m.get? k = some v) : f v ≤ sumBy f m := by
  have := sumBy_erase f m k
  rw [h] at this
  simp only [Option.map_some, Option.getD_some] at this
  omega

/-- Filtering out values that `f` gives nothing leaves the sum. -/
theorem sumBy_filterVals (f : α → Nat) (p : α → Bool) (hp : ∀ v, p v = false → f v = 0)
    (m : OrdMap κ α) : sumBy f (m.filterVals p) = sumBy f m :=
  sumList_filter_of_zero f p hp m.entries

theorem sumBy_eq_sum_values (f : α → Nat) (m : OrdMap κ α) :
    sumBy f m = (m.values.map f).sum := by
  simp only [sumBy, sumList, values, List.map_map]
  rfl

theorem le_sumBy_of_mem {f : α → Nat} {m : OrdMap κ α} {v : α} (h : v ∈ m.values) :
    f v ≤ sumBy f m := by
  rw [sumBy_eq_sum_values]
  exact List.le_sum_of_mem (List.mem_map_of_mem h)

theorem mem_values_of_get? {m : OrdMap κ α} {k : κ} {v : α} (h : m.get? k = some v) :
    v ∈ m.values := by
  simp only [get?, lookupList, Option.map_eq_some_iff] at h
  obtain ⟨e, he, rfl⟩ := h
  exact List.mem_map_of_mem (List.mem_of_find?_eq_some he)

theorem sumBy_filterVals_le (f : α → Nat) (p : α → Bool) (m : OrdMap κ α) :
    sumBy f (m.filterVals p) ≤ sumBy f m :=
  (List.filter_sublist.map _).sum_le_sum (fun _ _ => Nat.zero_le _)

theorem mem_values_of_mem_filterVals {p : α → Bool} {m : OrdMap κ α} {v : α}
    (h : v ∈ (m.filterVals p).values) : v ∈ m.values := by
  simp only [values, filterVals, List.mem_map, List.mem_filter] at h ⊢
  obtain ⟨e, ⟨he, _⟩, rfl⟩ := h
  exact ⟨e, he, rfl⟩

theorem keys_sorted (m : OrdMap κ α) : m.keys.Pairwise (· < ·) := by
  simpa [keys, List.pairwise_map] using m.sorted

theorem erase_insert_of_get?_eq_none (m : OrdMap κ α) (k : κ) (v : α) (h : m.get? k = none) :
    (m.insert k v).erase k = m := by
  obtain ⟨es, hs⟩ := m
  simp only [erase, insert, mk.injEq]
  exact filter_ne_insertList_of_lookupList_eq_none v h

theorem keys_insert_of_keys_eq_nil (m : OrdMap κ α) (k : κ) (v : α) (h : m.keys = []) :
    (m.insert k v).keys = [k] := by
  obtain ⟨es, hs⟩ := m
  have : es = [] := List.map_eq_nil_iff.mp h
  subst this
  rfl

theorem get?_eq_none_of_not_mem {m : OrdMap κ α} {k : κ} (h : k ∉ m.keys) : m.get? k = none := by
  simp only [get?, lookupList, Option.map_eq_none_iff, List.find?_eq_none]
  intro e he hk
  exact h (List.mem_map.mpr ⟨e, he, by simpa using hk⟩)

end OrdMap
