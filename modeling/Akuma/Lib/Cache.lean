import Mathlib

/-!
# Look-aside caches

A cache of values by key, seen through its contents: the partial map from
the keys it holds to the values it answers with. `Step` says what each
operation may do to the contents. A lookup leaves them alone; an insert of
a key already held leaves them alone; an insert of a new key adds it and
may drop one other key, the victim of an eviction; a remove drops its key.
An implementation refines this (`Impl.Refines`) when, from the states its
invariant admits, each allowed operation succeeds, keeps the invariant and
moves the contents by one `Step`, and a lookup answers with the contents.

Two consequences over whole runs. A key holds the value of the insert that
found it absent, for as long as it has stayed held since
(`Impl.Refines.contentsAfter_eq_some_iff`). And contents that agree with a
backing store keep agreeing while the cache is filled from the store and a
write to the store drops the key first (`Step.coherent`, `Coherent.write`).
-/

namespace Cache

variable {κ α σ : Type}

/-- An operation on a cache. -/
inductive Op (κ α : Type) where
  | get (k : κ)
  | insert (k : κ) (a : α)
  | remove (k : κ)
  deriving DecidableEq, Repr

section Step

variable [DecidableEq κ]

/-- The contents after an insert of the new key `k` with `a`, whose
eviction dropped `victim`. -/
def place (v : κ → Option α) (k : κ) (a : α) (victim : Option κ) : κ → Option α :=
  fun x => if x = k then some a else if some x = victim then none else v x

/-- What one operation may do to the contents `v`. -/
def Step (v : κ → Option α) : Op κ α → (κ → Option α) → Prop
  | .get _, v' => v' = v
  | .insert k a, v' => (v k ≠ none ∧ v' = v) ∨ (v k = none ∧ ∃ victim, v' = place v k a victim)
  | .remove k, v' => v' = Function.update v k none

variable {v v' : κ → Option α} {op : Op κ α} {k : κ} {a : α}

/-- A key that stays held keeps its value. -/
theorem Step.held (h : Step v op v') (hk : v k = some a) (hk' : v' k ≠ none) :
    v' k = some a := by
  cases op with
  | get k' =>
    rw [show v' = v from h]
    exact hk
  | insert k' a' =>
    rcases h with ⟨-, rfl⟩ | ⟨hfresh, victim, rfl⟩
    · exact hk
    · -- `k` is not the new key, which was absent, and not the victim, which is dropped
      have hne : k ≠ k' := by
        rintro rfl
        simp [hk] at hfresh
      simp only [place, if_neg hne] at hk' ⊢
      split_ifs at hk' ⊢
      · exact absurd rfl hk'
      · exact hk
  | remove k' =>
    rw [show v' = Function.update v k' none from h] at hk' ⊢
    by_cases hkk : k = k'
    · subst hkk
      simp at hk'
    · rw [Function.update_of_ne hkk]
      exact hk

/-- A key that was absent and is held after the step was inserted by it. -/
theorem Step.fill (h : Step v op v') (hk : v k = none) (hk' : v' k = some a) :
    op = .insert k a := by
  cases op with
  | get k' =>
    rw [show v' = v from h, hk] at hk'
    cases hk'
  | insert k' a' =>
    rcases h with ⟨-, rfl⟩ | ⟨-, victim, rfl⟩
    · rw [hk] at hk'
      cases hk'
    · by_cases hkk : k = k'
      · subst hkk
        simp only [place, ↓reduceIte, Option.some.injEq] at hk'
        rw [hk']
      · simp only [place, if_neg hkk, hk] at hk'
        split_ifs at hk'
  | remove k' =>
    rw [show v' = Function.update v k' none from h] at hk'
    by_cases hkk : k = k'
    · subst hkk
      simp at hk'
    · rw [Function.update_of_ne hkk, hk] at hk'
      cases hk'

/-- A key held after a step was held before it, or the step inserted it. -/
theorem Step.held_or_fill (h : Step v op v') (hk' : v' k ≠ none) : v k ≠ none ∨ ∃ a, op = .insert k a := by
  cases hv : v k with
  | some b => exact .inl (by simp)
  | none =>
    obtain ⟨a, ha⟩ := Option.ne_none_iff_exists'.mp hk'
    exact .inr ⟨a, h.fill hv ha⟩

/-- An insert of an absent key leaves it holding the inserted value. -/
theorem Step.insert_absent (h : Step v (.insert k a) v') (hk : v k = none) : v' k = some a := by
  rcases h with ⟨hne, -⟩ | ⟨-, victim, rfl⟩
  · exact absurd hk hne
  · simp [place]

end Step

/-! ## Implementations and their runs -/

/-- A cache's operations. A lookup may update the state (a reference bit),
and an insert may abort. -/
structure Impl (σ κ α : Type) where
  get : σ → κ → Option α × σ
  insert : σ → κ → α → Option σ
  remove : σ → κ → σ

namespace Impl

variable (M : Impl σ κ α)

/-- One operation; `none` if it aborts. -/
def exec (s : σ) : Op κ α → Option σ
  | .get k => some (M.get s k).2
  | .insert k a => M.insert s k a
  | .remove k => some (M.remove s k)

/-- The state after `ops`, `none` if one of them aborts. -/
def run (s : σ) (ops : List (Op κ α)) : Option σ :=
  ops.foldlM M.exec s

/-- What the cache holds at `k` after `ops`, seen through `view`. -/
def contentsAfter (view : σ → κ → Option α) (s : σ) (ops : List (Op κ α)) (k : κ) : Option α :=
  (M.run s ops).bind (view · k)

/-- `k` is held after `pre` followed by each prefix of `post`. -/
def HeldAlong (view : σ → κ → Option α) (s : σ) (pre post : List (Op κ α)) (k : κ) : Prop :=
  ∀ i ≤ post.length, M.contentsAfter view s (pre ++ post.take i) k ≠ none

@[simp] theorem run_nil (s : σ) : M.run s [] = some s := rfl

theorem run_cons (s : σ) (op : Op κ α) (ops : List (Op κ α)) :
    M.run s (op :: ops) = (M.exec s op).bind (M.run · ops) := by
  simp only [run, List.foldlM_cons]
  rfl

theorem run_concat (s : σ) (ops : List (Op κ α)) (op : Op κ α) :
    M.run s (ops ++ [op]) = (M.run s ops).bind (M.exec · op) := by
  simp only [run, List.foldlM_append, List.foldlM_cons, List.foldlM_nil]
  cases ops.foldlM M.exec s with
  | none => rfl
  | some s' =>
    change (M.exec s' op).bind some = M.exec s' op
    cases M.exec s' op <;> rfl

@[simp] theorem contentsAfter_nil (view : σ → κ → Option α) (s : σ) (k : κ) :
    M.contentsAfter view s [] k = view s k := rfl

theorem contentsAfter_of_run {view : σ → κ → Option α} {s s' : σ} {ops : List (Op κ α)}
    (h : M.run s ops = some s') (k : κ) : M.contentsAfter view s ops k = view s' k := by
  simp [contentsAfter, h]

theorem heldAlong_nil (view : σ → κ → Option α) (s : σ) (pre : List (Op κ α)) {k : κ}
    (h : M.contentsAfter view s pre k ≠ none) : M.HeldAlong view s pre [] k := by
  intro i hi
  simpa using h

theorem heldAlong_concat {view : σ → κ → Option α} {s : σ} {pre post : List (Op κ α)}
    {op : Op κ α} {k : κ} :
    M.HeldAlong view s pre (post ++ [op]) k ↔
      M.HeldAlong view s pre post k ∧ M.contentsAfter view s (pre ++ post ++ [op]) k ≠ none := by
  constructor
  · intro h
    refine ⟨fun i hi => ?_, ?_⟩
    · have := h i (by simp; omega)
      rwa [List.take_append_of_le_length hi] at this
    · have := h (post.length + 1) (by simp)
      rwa [List.take_of_length_le (by simp), ← List.append_assoc] at this
  · rintro ⟨h, hlast⟩ i hi
    simp only [List.length_append, List.length_singleton] at hi
    by_cases hle : i ≤ post.length
    · rw [List.take_append_of_le_length hle]
      exact h i hle
    · rw [List.take_of_length_le (by simp; omega), ← List.append_assoc]
      exact hlast

variable [DecidableEq κ]

/-- `M` refines the contents semantics through `view`, from the states
`inv` admits, for the operations `adm` allows. -/
structure Refines (view : σ → κ → Option α) (inv : σ → Prop) (adm : Op κ α → Prop) : Prop where
  get_fst : ∀ s k, inv s → adm (.get k) → (M.get s k).1 = view s k
  step : ∀ s op, inv s → adm op →
    ∃ s', M.exec s op = some s' ∧ inv s' ∧ Step (view s) op (view s')

variable {M} {view : σ → κ → Option α} {inv : σ → Prop} {adm : Op κ α → Prop}

/-- Allowed operations never abort and keep the invariant. -/
theorem Refines.run (h : M.Refines view inv adm) :
    ∀ {ops : List (Op κ α)}, (∀ op ∈ ops, adm op) → ∀ {s}, inv s → ∃ s', M.run s ops = some s' ∧ inv s'
  | [], _, s, hs => ⟨s, rfl, hs⟩
  | op :: ops, hops, s, hs => by
    obtain ⟨s₁, h₁, hs₁, -⟩ := h.step s op hs (hops op List.mem_cons_self)
    obtain ⟨s₂, h₂, hs₂⟩ := h.run (fun o ho => hops o (List.mem_cons_of_mem _ ho)) hs₁
    exact ⟨s₂, by rw [M.run_cons, h₁, Option.bind_some, h₂], hs₂⟩

/-- The step after an allowed run: the state it reaches from the run's
state, and the contents before and after it. -/
theorem Refines.step_concat (h : M.Refines view inv adm) {s : σ} (hs : inv s)
    {ops : List (Op κ α)} {op : Op κ α} (hops : ∀ o ∈ ops ++ [op], adm o) :
    ∃ s₁ s₂, M.run s ops = some s₁ ∧ M.run s (ops ++ [op]) = some s₂ ∧ inv s₂ ∧
      Step (view s₁) op (view s₂) := by
  obtain ⟨s₁, h₁, hs₁⟩ := h.run (fun o ho => hops o (List.mem_append_left _ ho)) hs
  obtain ⟨s₂, h₂, hs₂, hstep⟩ := h.step s₁ op hs₁ (hops op (by simp))
  exact ⟨s₁, s₂, h₁, by rw [M.run_concat, h₁, Option.bind_some, h₂], hs₂, hstep⟩

/-- While `k` stays held, it keeps its value. -/
theorem Refines.contentsAfter_of_heldAlong (h : M.Refines view inv adm) {s : σ} (hs : inv s)
    {pre : List (Op κ α)} {k : κ} {a : α} (hpre : M.contentsAfter view s pre k = some a) :
    ∀ {post : List (Op κ α)}, (∀ op ∈ pre ++ post, adm op) → M.HeldAlong view s pre post k →
      M.contentsAfter view s (pre ++ post) k = some a := by
  intro post
  induction post using List.reverseRecOn with
  | nil => intro _ _; simpa using hpre
  | append_singleton post op ih =>
    intro hops hheld
    rw [heldAlong_concat] at hheld
    have hops' : ∀ o ∈ (pre ++ post) ++ [op], adm o := by simpa using hops
    obtain ⟨s₁, s₂, h₁, h₂, -, hstep⟩ := h.step_concat hs hops'
    have hprev := ih (fun o ho => hops o (by simp at ho ⊢; tauto)) hheld.1
    rw [← List.append_assoc, contentsAfter_of_run _ h₂]
    rw [contentsAfter_of_run _ h₁] at hprev
    rw [contentsAfter_of_run _ h₂] at hheld
    exact hstep.held hprev hheld.2

/-- What a run leaves at `k`: the value `k` held at the start, if it has
stayed held since, or else the value of the insert that found `k` absent,
if `k` has stayed held since that insert. An insert of a key already held
changes nothing, so it is never the one that counts. -/
theorem Refines.contentsAfter_eq_some_iff (h : M.Refines view inv adm) {s : σ} (hs : inv s)
    {ops : List (Op κ α)} (hops : ∀ op ∈ ops, adm op) {k : κ} {a : α} :
    M.contentsAfter view s ops k = some a ↔
      (view s k = some a ∧ M.HeldAlong view s [] ops k) ∨
      ∃ pre post, ops = pre ++ .insert k a :: post ∧ M.contentsAfter view s pre k = none ∧
        M.HeldAlong view s (pre ++ [.insert k a]) post k := by
  constructor
  · -- by induction on the run from its end: the last step either filled `k` or kept it
    induction ops using List.reverseRecOn with
    | nil =>
      intro hk
      exact .inl ⟨hk, M.heldAlong_nil view s [] (by simp [hk])⟩
    | append_singleton ops op ih =>
      intro hk
      obtain ⟨s₁, s₂, h₁, h₂, -, hstep⟩ := h.step_concat hs hops
      rw [contentsAfter_of_run _ h₂] at hk
      have hk₂ : M.contentsAfter view s (ops ++ [op]) k ≠ none := by
        rw [contentsAfter_of_run _ h₂, hk]
        simp
      cases h₁k : view s₁ k with
      | none =>
        -- the last operation is the insert that filled `k`
        obtain rfl := hstep.fill h₁k hk
        refine .inr ⟨ops, [], by simp, by rw [contentsAfter_of_run _ h₁, h₁k], ?_⟩
        exact M.heldAlong_nil view s _ hk₂
      | some b =>
        have hb := hstep.held h₁k (by simp [hk])
        rw [hk] at hb
        cases hb
        have hprev : M.contentsAfter view s ops k = some a := by
          rw [contentsAfter_of_run _ h₁, h₁k]
        rcases ih (fun o ho => hops o (List.mem_append_left _ ho)) hprev with
          ⟨hv, hheld⟩ | ⟨pre, post, rfl, hpre, hheld⟩
        · exact .inl ⟨hv, M.heldAlong_concat.mpr ⟨hheld, by simpa using hk₂⟩⟩
        · refine .inr ⟨pre, post ++ [op], by simp, hpre, M.heldAlong_concat.mpr ⟨hheld, ?_⟩⟩
          simpa using hk₂
  · rintro (⟨hv, hheld⟩ | ⟨pre, post, rfl, hpre, hheld⟩)
    · simpa using h.contentsAfter_of_heldAlong hs (show M.contentsAfter view s [] k = some a by simpa using hv)
        (by simpa using hops) hheld
    · -- the insert fills `k`, which then keeps its value along `post`
      have hops' : ∀ o ∈ pre ++ [Op.insert k a], adm o := fun o ho =>
        hops o (by simp at ho ⊢; tauto)
      obtain ⟨s₁, s₂, h₁, h₂, -, hstep⟩ := h.step_concat hs hops'
      have hfill : M.contentsAfter view s (pre ++ [.insert k a]) k = some a := by
        rw [contentsAfter_of_run _ h₂]
        rw [contentsAfter_of_run _ h₁] at hpre
        exact hstep.insert_absent hpre
      simpa using h.contentsAfter_of_heldAlong hs hfill (by simpa using hops) hheld

end Impl

/-! ## Agreement with a backing store -/

variable [DecidableEq κ]

/-- Every value the contents hold is the store's value at its key. -/
def Coherent (v : κ → Option α) (store : κ → α) : Prop :=
  ∀ k a, v k = some a → store k = a

section Coherent

variable {v v' : κ → Option α} {store : κ → α} {op : Op κ α}

/-- A step whose inserts carry the store's values keeps coherence. -/
theorem Step.coherent (h : Step v op v') (hc : Coherent v store)
    (hop : ∀ k a, op = .insert k a → store k = a) : Coherent v' store := by
  intro k a hk
  cases hv : v k with
  | none => exact hop k a (h.fill hv hk)
  | some b =>
    have hb := h.held hv (by simp [hk])
    rw [hk] at hb
    cases hb
    exact hc k a hv

/-- A write to the store at a key the contents no longer hold keeps
coherence. -/
theorem Coherent.write (hc : Coherent v store) (k : κ) (a : α) :
    Coherent (Function.update v k none) (Function.update store k a) := by
  intro x b hx
  by_cases hxk : x = k
  · subst hxk
    simp at hx
  · rw [Function.update_of_ne hxk] at hx ⊢
    exact hc x b hx

end Coherent

end Cache
