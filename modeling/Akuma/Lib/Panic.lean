import Mathlib

/-!
# Panicking primitives

A small library for code whose primitive operations abort the whole
computation instead of returning an error: indexing and slicing out of
range, and checked machine arithmetic that overflows. A computation is an
`Except Panic α`. An `Option` that the modelled code returns stays inside
`α`, so "returned `None`" and "panicked" are different outcomes and a
totality statement is the statement that the result is never `.error`.

Slicing follows the order of the checks of a bounds-checked slice: a
start after the end is reported before an end past the length.
-/

namespace Panicking

/-- Why a computation aborted. -/
inductive Panic where
  | indexOutOfBounds (index len : Nat)
  | sliceStartAfterEnd (start stop : Nat)
  | sliceEndOutOfRange (stop len : Nat)
  | subOverflow (a b : Nat)
  | addOverflow (a b : Nat)
  deriving DecidableEq, Repr

variable {α β : Type}

/-- `xs[i]`. -/
def index (xs : List α) (i : Nat) : Except Panic α :=
  if h : i < xs.length then .ok xs[i] else .error (.indexOutOfBounds i xs.length)

/-- `xs[start..stop]`. -/
def slice (xs : List α) (start stop : Nat) : Except Panic (List α) :=
  if start ≤ stop then
    if stop ≤ xs.length then .ok ((xs.take stop).drop start)
    else .error (.sliceEndOutOfRange stop xs.length)
  else .error (.sliceStartAfterEnd start stop)

/-- `xs[start..]`. -/
def sliceFrom (xs : List α) (start : Nat) : Except Panic (List α) :=
  slice xs start xs.length

/-- Checked subtraction `a - b` of unsigned machine integers. -/
def checkedSub (a b : Nat) : Except Panic Nat :=
  if b ≤ a then .ok (a - b) else .error (.subOverflow a b)

/-- Checked addition `a + b` of `w`-bit unsigned machine integers. -/
def checkedAdd (w a b : Nat) : Except Panic Nat :=
  if a + b < 2 ^ w then .ok (a + b) else .error (.addOverflow a b)

/-! ## Reading a computation apart -/

@[simp] theorem ok_bind {ε : Type} (a : α) (f : α → Except ε β) :
    (Except.ok a >>= f) = f a := rfl

@[simp] theorem error_bind {ε : Type} (e : ε) (f : α → Except ε β) :
    (Except.error e >>= f) = Except.error e := rfl

@[simp] theorem map_ok {ε : Type} (a : α) (f : α → β) :
    (f <$> (Except.ok a : Except ε α)) = Except.ok (f a) := rfl

@[simp] theorem map_error {ε : Type} (e : ε) (f : α → β) :
    (f <$> (Except.error e : Except ε α)) = Except.error e := rfl

@[simp] theorem pure_eq {ε : Type} (a : α) : (pure a : Except ε α) = Except.ok a := rfl

theorem bind_eq_ok {ε : Type} {x : Except ε α} {f : α → Except ε β} {b : β} :
    x >>= f = .ok b ↔ ∃ a, x = .ok a ∧ f a = .ok b := by
  cases x with
  | error e => simp [bind, Except.bind]
  | ok a => simp [bind, Except.bind]

theorem bind_eq_error {ε : Type} {x : Except ε α} {f : α → Except ε β} {e : ε} :
    x >>= f = .error e ↔ x = .error e ∨ ∃ a, x = .ok a ∧ f a = .error e := by
  cases x with
  | error e' => simp [bind, Except.bind]
  | ok a => simp [bind, Except.bind]

@[simp] theorem index_eq_ok {xs : List α} {i : Nat} {a : α} :
    index xs i = .ok a ↔ xs[i]? = some a := by
  unfold index
  split
  · rename_i h
    simp [List.getElem?_eq_getElem h]
  · rename_i h
    simp [List.getElem?_eq_none (by omega : xs.length ≤ i)]

/-- A list of computations each of which succeeds succeeds. -/
theorem mapM_ok_of_forall {ε : Type} {f : α → Except ε β} :
    ∀ (l : List α), (∀ a ∈ l, ∃ b, f a = .ok b) → ∃ bs, l.mapM f = .ok bs
  | [], _ => ⟨[], rfl⟩
  | a :: l, h => by
    obtain ⟨b, hb⟩ := h a (by simp)
    obtain ⟨bs, hbs⟩ := mapM_ok_of_forall l (fun x hx => h x (by simp [hx]))
    exact ⟨b :: bs, by simp [List.mapM_cons, hb, hbs]⟩

/-- A list of computations that succeeds gives one value for each. -/
theorem length_of_mapM_ok {ε : Type} {f : α → Except ε β} :
    ∀ {l : List α} {bs : List β}, l.mapM f = .ok bs → bs.length = l.length
  | [], bs, h => by
    simp only [List.mapM_nil, pure_eq, Except.ok.injEq] at h
    simp [← h]
  | a :: l, bs, h => by
    rw [List.mapM_cons] at h
    obtain ⟨b, -, h⟩ := bind_eq_ok.mp h
    obtain ⟨bs', hbs', h⟩ := bind_eq_ok.mp h
    simp only [pure_eq, Except.ok.injEq] at h
    simp [← h, length_of_mapM_ok hbs']

theorem index_of_lt {xs : List α} {i : Nat} (h : i < xs.length) :
    index xs i = .ok xs[i] := by
  simp [index, h]

theorem index_of_le {xs : List α} {i : Nat} (h : xs.length ≤ i) :
    index xs i = .error (.indexOutOfBounds i xs.length) := by
  simp [index, show ¬ i < xs.length by omega]

theorem slice_of_le {xs : List α} {start stop : Nat} (h₁ : start ≤ stop)
    (h₂ : stop ≤ xs.length) : slice xs start stop = .ok ((xs.take stop).drop start) := by
  simp [slice, h₁, h₂]

theorem slice_of_gt {xs : List α} {start stop : Nat} (h : stop < start) :
    slice xs start stop = .error (.sliceStartAfterEnd start stop) := by
  simp [slice, show ¬ start ≤ stop by omega]

theorem slice_of_len_lt {xs : List α} {start stop : Nat} (h₁ : start ≤ stop)
    (h₂ : xs.length < stop) :
    slice xs start stop = .error (.sliceEndOutOfRange stop xs.length) := by
  simp [slice, h₁, show ¬ stop ≤ xs.length by omega]

@[simp] theorem slice_eq_ok {xs ys : List α} {start stop : Nat} :
    slice xs start stop = .ok ys ↔
      start ≤ stop ∧ stop ≤ xs.length ∧ ys = (xs.take stop).drop start := by
  unfold slice
  split_ifs with h₁ h₂ <;> simp [*, eq_comm]

theorem sliceFrom_of_le {xs : List α} {start : Nat} (h : start ≤ xs.length) :
    sliceFrom xs start = .ok (xs.drop start) := by
  simp [sliceFrom, slice_of_le h le_rfl]

/-- A slice of a prefix is a slice of the whole list. -/
theorem take_drop_take {xs : List α} {a b c : Nat} (hb : b ≤ c) :
    ((xs.take c).take b).drop a = (xs.take b).drop a := by
  rw [List.take_take, Nat.min_eq_left hb]

@[simp] theorem checkedSub_eq_ok {a b c : Nat} :
    checkedSub a b = .ok c ↔ b ≤ a ∧ c = a - b := by
  unfold checkedSub
  split_ifs with h <;> simp [h, eq_comm]

theorem checkedSub_of_le {a b : Nat} (h : b ≤ a) : checkedSub a b = .ok (a - b) := by
  simp [checkedSub, h]

theorem checkedSub_of_lt {a b : Nat} (h : a < b) :
    checkedSub a b = .error (.subOverflow a b) := by
  simp [checkedSub, show ¬ b ≤ a by omega]

@[simp] theorem checkedAdd_eq_ok {w a b c : Nat} :
    checkedAdd w a b = .ok c ↔ a + b < 2 ^ w ∧ c = a + b := by
  unfold checkedAdd
  split_ifs with h <;> simp [h, eq_comm]

end Panicking
