import Akuma.Lib.State

/-!
# Computations through a second state

A reading computation of a program that keeps a second state beside the
one it reads, such as a cache in front of a device: `Through ε γ α` runs
from a second state `γ`, may fail with an error of `ε`, and may abort
(`none`).

`Returns R x o` says that from every second state that `R` holds of, `x`
returns `o` and ends in a second state that `R` holds of. When `o` is the
outcome of a computation that reads the first state directly, `x` reads
what that computation reads: `R` is what keeps the second state honest
(for a cache, that the blocks it holds are the device's). There is one rule
for each way a `do` block combines its parts, so that the statement for a
whole read is assembled from those of its parts.
-/

namespace StateRun

variable {ε γ α β : Type}

/-- A computation over a second state `γ` that may fail with `ε` and may
abort. -/
abbrev Through (ε γ α : Type) := ExceptT ε (StateT γ Option) α

/-- The run of `x` from the second state `c`: its result and the second
state after it, or `none` if it aborts. -/
def Through.runFrom (x : Through ε γ α) (c : γ) : Option (Except ε α × γ) :=
  x.run.run c

/-- A result that needs nothing of the second state. -/
def Through.ofExcept (o : Except ε α) : Through ε γ α :=
  ExceptT.mk (pure o)

namespace Through

@[simp] theorem runFrom_ofExcept (o : Except ε α) (c : γ) : (ofExcept o : Through ε γ α).runFrom c = some (o, c) :=
  rfl

@[simp] theorem runFrom_pure (a : α) (c : γ) : (pure a : Through ε γ α).runFrom c = some (.ok a, c) := rfl

@[simp] theorem runFrom_throw (e : ε) (c : γ) :
    (throw e : Through ε γ α).runFrom c = some (.error e, c) := rfl

/-- A block runs its first part, then the rest from where it stopped; an
error or an abort ends it. -/
theorem runFrom_bind (x : Through ε γ α) (f : α → Through ε γ β) (c : γ) :
    (x >>= f).runFrom c = (x.runFrom c).bind fun p =>
      match p.1 with
      | .ok a => (f a).runFrom p.2
      | .error e => some (.error e, p.2) := by
  simp only [runFrom, ExceptT.run_bind, StateT.run_bind]
  cases x.run.run c with
  | none => rfl
  | some p =>
    obtain ⟨r, c'⟩ := p
    cases r <;> rfl

end Through

/-! ## Results whatever the second state -/

section Returns

variable (R : γ → Prop)

/-- From every second state that `R` holds of, `x` returns `o` and ends in
a second state that `R` holds of. -/
def Returns (x : Through ε γ α) (o : Except ε α) : Prop :=
  ∀ c, R c → ∃ c', x.runFrom c = some (o, c') ∧ R c'

variable {R}

theorem Returns.pure (a : α) : Returns R (pure a : Through ε γ α) (.ok a) :=
  fun c hc => ⟨c, rfl, hc⟩

theorem Returns.throw (e : ε) : Returns R (throw e : Through ε γ α) (.error e) :=
  fun c hc => ⟨c, rfl, hc⟩

theorem Returns.ofExcept (o : Except ε α) : Returns R (Through.ofExcept o) o :=
  fun c hc => ⟨c, rfl, hc⟩

/-- The rule for a block: its first part returns `o`, and from each value
`o` carries the rest returns `o' a`. -/
theorem Returns.bind {x : Through ε γ α} {f : α → Through ε γ β} {o : Except ε α}
    {o' : α → Except ε β} (hx : Returns R x o) (hf : ∀ a, o = .ok a → Returns R (f a) (o' a)) :
    Returns R (x >>= f) (o.bind o') := by
  intro c hc
  obtain ⟨c₁, hrun, hc₁⟩ := hx c hc
  rw [Through.runFrom_bind, hrun, Option.bind_some]
  cases o with
  | error e => exact ⟨c₁, rfl, hc₁⟩
  | ok a => exact hf a rfl c₁ hc₁

/-- The rule for a block whose first part succeeds. -/
theorem Returns.bind_ok {x : Through ε γ α} {f : α → Through ε γ β} {a : α} {o : Except ε β}
    (hx : Returns R x (.ok a)) (hf : Returns R (f a) o) : Returns R (x >>= f) o := by
  intro c hc
  obtain ⟨c₁, hrun, hc₁⟩ := hx c hc
  rw [Through.runFrom_bind, hrun, Option.bind_some]
  exact hf c₁ hc₁

/-- The rule for a block against a reading computation of the first state:
each part returns the outcome of the corresponding part. -/
theorem Returns.bind_outcome {σ : Type} {x : Through ε γ α} {f : α → Through ε γ β} {y : EStateM ε σ α}
    {g : α → EStateM ε σ β} {s : σ} (hy : ReadOnly y) (hx : Returns R x (outcome y s))
    (hf : ∀ a, outcome y s = .ok a → Returns R (f a) (outcome (g a) s)) :
    Returns R (x >>= f) (outcome (y >>= g) s) := by
  rw [hy.outcome_bind]
  exact Returns.bind hx hf

theorem Returns.ite {p : Prop} [Decidable p] {x y : Through ε γ α} {o o' : Except ε α}
    (hx : p → Returns R x o) (hy : ¬p → Returns R y o') :
    Returns R (if p then x else y) (if p then o else o') := by
  by_cases h : p
  · simpa [h] using hx h
  · simpa [h] using hy h

theorem Returns.dite {p : Prop} [Decidable p] {x : p → Through ε γ α} {y : ¬p → Through ε γ α}
    {o : p → Except ε α} {o' : ¬p → Except ε α} (hx : ∀ h, Returns R (x h) (o h))
    (hy : ∀ h, Returns R (y h) (o' h)) :
    Returns R (if h : p then x h else y h) (if h : p then o h else o' h) := by
  by_cases h : p
  · simpa [h] using hx h
  · simpa [h] using hy h

/-- A fold whose every step returns what a step on the values returns;
by induction on the list. -/
theorem Returns.foldlM {f : β → α → Through ε γ β} {g : β → α → Except ε β}
    (hf : ∀ b a, Returns R (f b a) (g b a)) :
    ∀ (l : List α) (init : β), Returns R (l.foldlM f init) (l.foldlM g init)
  | [], init => Returns.pure init
  | a :: l, init => by
    rw [List.foldlM_cons, List.foldlM_cons]
    exact Returns.bind (hf init a) fun b _ => Returns.foldlM hf l b

theorem Returns.mapM {f : α → Through ε γ β} {g : α → Except ε β} (hf : ∀ a, Returns R (f a) (g a)) :
    ∀ l : List α, Returns R (l.mapM f) (l.mapM g)
  | [] => Returns.pure []
  | a :: l => by
    rw [List.mapM_cons, List.mapM_cons]
    exact Returns.bind (hf a) fun b _ => Returns.bind (Returns.mapM hf l) fun bs _ => Returns.pure (b :: bs)

/-- A fold against a fold of reading computations of the first state. -/
theorem Returns.foldlM_outcome {σ : Type} {f : β → α → Through ε γ β} {g : β → α → EStateM ε σ β} {s : σ}
    (hg : ∀ b a, ReadOnly (g b a)) (hf : ∀ b a, Returns R (f b a) (outcome (g b a) s)) :
    ∀ (l : List α) (init : β), Returns R (l.foldlM f init) (outcome (l.foldlM g init) s)
  | [], init => Returns.pure init
  | a :: l, init => by
    rw [List.foldlM_cons, List.foldlM_cons]
    exact Returns.bind_outcome (hg init a) (hf init a) fun b _ => Returns.foldlM_outcome hg hf l b

end Returns

end StateRun
