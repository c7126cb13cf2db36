import Mathlib

/-!
# State-and-error computations

Rules for `EStateM ε σ`, the monad of computations that update a state and
may fail while keeping the state they reached: the outcome and the final
state of a run, and the rules by which a computation built from reading
parts is shown to read only (`ReadOnly`), one rule for each way a `do`
block combines its parts.
-/

namespace StateRun

variable {ε σ α β : Type}

@[simp] theorem run_throw' (e : ε) (s : σ) : (throw e : EStateM ε σ α).run s = .error e s := rfl

/-! ## Results of a run -/

/-- The value or the error of a run from `s`. -/
def outcome (x : EStateM ε σ α) (s : σ) : Except ε α :=
  match x.run s with
  | .ok a _ => .ok a
  | .error e _ => .error e

/-- The state a successful run from `s` ends in. -/
def final? (x : EStateM ε σ α) (s : σ) : Option σ :=
  match x.run s with
  | .ok _ s' => some s'
  | .error _ _ => none

/-- A run succeeds with `a` exactly when its outcome is `a`. -/
theorem outcome_eq_ok {x : EStateM ε σ α} {s : σ} {a : α} :
    outcome x s = .ok a ↔ ∃ s', x.run s = .ok a s' := by
  unfold outcome
  split
  · rename_i b s' h
    rw [h]
    simp
  · rename_i e s' h
    rw [h]
    simp

/-- A block succeeds exactly when its first part does and the rest succeeds
from the state the first part left. -/
theorem run_bind_eq_ok {x : EStateM ε σ α} {f : α → EStateM ε σ β} {s s'' : σ} {b : β} :
    (x >>= f).run s = .ok b s'' ↔ ∃ a s', x.run s = .ok a s' ∧ (f a).run s' = .ok b s'' := by
  rw [EStateM.run_bind]
  cases hx : x.run s with
  | ok a s' => simp
  | error e s' => simp

/-- A successful `mapM` returns one result per element. -/
theorem length_of_run_mapM {f : α → EStateM ε σ β} :
    ∀ {l : List α} {s s' : σ} {r : List β}, (l.mapM f).run s = .ok r s' → r.length = l.length
  | [], s, s', r, h => by
    cases h
    rfl
  | a :: l, s, s', r, h => by
    rw [List.mapM_cons] at h
    obtain ⟨b, s1, -, h⟩ := run_bind_eq_ok.mp h
    obtain ⟨bs, s2, hbs, h⟩ := run_bind_eq_ok.mp h
    cases h
    simp [length_of_run_mapM hbs]

/-! ## Reading computations -/

/-- `x` never changes the state, whether it succeeds or fails. -/
def ReadOnly (x : EStateM ε σ α) : Prop :=
  ∀ s, (∃ a, x.run s = .ok a s) ∨ (∃ e, x.run s = .error e s)

theorem ReadOnly.pure (a : α) : ReadOnly (pure a : EStateM ε σ α) :=
  fun _ => .inl ⟨a, rfl⟩

theorem ReadOnly.get : ReadOnly (get : EStateM ε σ σ) :=
  fun s => .inl ⟨s, rfl⟩

theorem ReadOnly.throw (e : ε) : ReadOnly (throw e : EStateM ε σ α) :=
  fun _ => .inr ⟨e, rfl⟩

/-- A guard that fails stops the block: what follows it does not run. -/
theorem ReadOnly.throw_bind (e : ε) (f : α → EStateM ε σ β) :
    ReadOnly ((MonadExcept.throw e : EStateM ε σ α) >>= f) :=
  fun _ => .inr ⟨e, rfl⟩

theorem ReadOnly.bind {x : EStateM ε σ α} {f : α → EStateM ε σ β} (hx : ReadOnly x)
    (hf : ∀ a, ReadOnly (f a)) : ReadOnly (x >>= f) := by
  intro s
  rcases hx s with ⟨a, ha⟩ | ⟨e, he⟩
  · rw [EStateM.run_bind, ha]
    exact hf a s
  · rw [EStateM.run_bind, he]
    exact .inr ⟨e, rfl⟩

theorem ReadOnly.ite {c : Prop} [Decidable c] {x y : EStateM ε σ α} (hx : ReadOnly x)
    (hy : ReadOnly y) : ReadOnly (if c then x else y) := by
  split
  · exact hx
  · exact hy

theorem ReadOnly.dite {c : Prop} [Decidable c] {x : c → EStateM ε σ α} {y : ¬c → EStateM ε σ α}
    (hx : ∀ h, ReadOnly (x h)) (hy : ∀ h, ReadOnly (y h)) :
    ReadOnly (if h : c then x h else y h) := by
  split
  · exact hx _
  · exact hy _

theorem ReadOnly.map {x : EStateM ε σ α} (f : α → β) (hx : ReadOnly x) : ReadOnly (f <$> x) := by
  intro s
  rcases hx s with ⟨a, ha⟩ | ⟨e, he⟩
  · exact .inl ⟨f a, by rw [EStateM.run_map, ha]; rfl⟩
  · exact .inr ⟨e, by rw [EStateM.run_map, he]; rfl⟩

/-- `tryCatch` keeps the state the failing computation reached: it does not
roll back. -/
theorem run_tryCatch (x : EStateM ε σ α) (h : ε → EStateM ε σ α) (s : σ) :
    (tryCatch x h).run s = match x.run s with
      | .ok a s' => .ok a s'
      | .error e s' => (h e).run s' := by
  show EStateM.tryCatch x h s = _
  unfold EStateM.tryCatch EStateM.run
  cases x s <;> rfl

theorem ReadOnly.tryCatch {x : EStateM ε σ α} {h : ε → EStateM ε σ α} (hx : ReadOnly x)
    (hh : ∀ e, ReadOnly (h e)) : ReadOnly (tryCatch x h) := by
  intro s
  rw [run_tryCatch]
  rcases hx s with ⟨a, ha⟩ | ⟨e, he⟩
  · rw [ha]
    exact .inl ⟨a, rfl⟩
  · rw [he]
    exact hh e s

/-- A fold whose every step reads only reads; by induction on the list. -/
theorem ReadOnly.foldlM {f : β → α → EStateM ε σ β} (hf : ∀ b a, ReadOnly (f b a)) :
    ∀ (l : List α) (init : β), ReadOnly (l.foldlM f init)
  | [], init => ReadOnly.pure init
  | a :: l, init => by
    rw [List.foldlM_cons]
    exact ReadOnly.bind (hf init a) fun b => ReadOnly.foldlM hf l b

theorem ReadOnly.mapM {f : α → EStateM ε σ β} (hf : ∀ a, ReadOnly (f a)) :
    ∀ l : List α, ReadOnly (l.mapM f)
  | [] => ReadOnly.pure []
  | a :: l => by
    rw [List.mapM_cons]
    exact ReadOnly.bind (hf a) fun _ => ReadOnly.bind (ReadOnly.mapM hf l) fun _ => ReadOnly.pure _

/-- A reading computation that succeeds leaves the state as it was. -/
theorem ReadOnly.eq_of_ok {x : EStateM ε σ α} (hx : ReadOnly x) {s s' : σ} {a : α}
    (h : x.run s = .ok a s') : s' = s := by
  rcases hx s with ⟨b, hb⟩ | ⟨e, he⟩
  · rw [hb] at h
    cases h
    rfl
  · rw [he] at h
    cases h

/-- The outcome of a block whose first part only reads: the first part's
outcome, then the rest's from the same state. -/
theorem ReadOnly.outcome_bind {x : EStateM ε σ α} (hx : ReadOnly x) (f : α → EStateM ε σ β)
    (s : σ) : outcome (x >>= f) s = (outcome x s).bind fun a => outcome (f a) s := by
  rcases hx s with ⟨a, ha⟩ | ⟨e, he⟩
  · simp only [outcome, EStateM.run_bind, ha]
    rfl
  · simp only [outcome, EStateM.run_bind, he]
    rfl

/-- The outcome of a `mapM` of reading computations is the `mapM` of their
outcomes. -/
theorem ReadOnly.outcome_mapM {f : α → EStateM ε σ β} (hf : ∀ a, ReadOnly (f a)) (s : σ) :
    ∀ l : List α, outcome (l.mapM f) s = l.mapM fun a => outcome (f a) s
  | [] => rfl
  | a :: l => by
    rw [List.mapM_cons, List.mapM_cons, (hf a).outcome_bind]
    cases outcome (f a) s with
    | error e => rfl
    | ok b =>
      change outcome (l.mapM f >>= fun bs => Pure.pure (b :: bs)) s =
        (l.mapM fun a => outcome (f a) s) >>= _
      rw [(ReadOnly.mapM hf l).outcome_bind, ReadOnly.outcome_mapM hf s l]
      cases l.mapM fun a => outcome (f a) s <;> rfl

end StateRun
