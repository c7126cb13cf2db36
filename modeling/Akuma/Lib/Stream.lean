import Mathlib.Logic.Basic

/-!
# Buffered decoders

A decoder that is fed its input in pieces keeps what it has not used yet in a
buffer. Each call appends the new piece to the buffer and runs the decoding
loop until a round waits for more. A round fails, or waits, or takes some of
the buffer and gives some output.

`feedAll_eq_feed` says when the output does not depend on where the input was
cut: each round that does not wait does the same work over a longer buffer
(`Extends`). It may give more of its output at once, but then it goes on as it
would have after the new input arrived, and a round that fails fails the same
way. The condition is stated for states with a given input still to come, so a
decoder that keeps to it only on well-formed input can say so.
-/

namespace Decoding

/-- A decoding loop over a state that holds a buffer. -/
structure Decoder (σ α ω ε : Type) where
  /-- One round of the loop: an error, a wait for more input (`none`), or
  output and the next state. -/
  step : σ → Except ε (Option (List ω × σ))
  /-- The state with input appended to its buffer. -/
  append : σ → List α → σ
  /-- What every round that does not wait lowers. -/
  measure : σ → Nat
  step_lt : ∀ {s o s'}, step s = .ok (some (o, s')) → measure s' < measure s
  append_nil : ∀ s, append s [] = s
  append_append : ∀ s a b, append (append s a) b = append s (a ++ b)

namespace Decoder

variable {σ α ω ε : Type} (d : Decoder σ α ω ε)

/-- Output given before that of a run. -/
def prepend (o : List ω) (r : Except ε (List ω × σ)) : Except ε (List ω × σ) :=
  r.map fun p => (o ++ p.1, p.2)

/-- The loop: rounds until one waits, with the output of each in order. -/
def drain (s : σ) : Except ε (List ω × σ) :=
  match h : d.step s with
  | .error e => .error e
  | .ok none => .ok ([], s)
  | .ok (some (o, s')) =>
    have := d.step_lt h
    prepend o (drain s')
termination_by d.measure s

/-- A call: the input appended to the buffer, then the loop. -/
def feed (s : σ) (input : List α) : Except ε (List ω × σ) :=
  d.drain (d.append s input)

/-- Calls one after another, with their outputs together. The first error
ends them. -/
def feedAll (s : σ) : List (List α) → Except ε (List ω × σ)
  | [] => .ok ([], s)
  | c :: cs => (d.feed s c).bind fun p => prepend p.1 (feedAll p.2 cs)

/-! ## Output before a run -/

variable {d}

@[simp] theorem prepend_nil (r : Except ε (List ω × σ)) : prepend [] r = r := by
  cases r <;> rfl

@[simp] theorem prepend_error (o : List ω) (e : ε) :
    prepend o (.error e : Except ε (List ω × σ)) = .error e := rfl

@[simp] theorem prepend_ok (o o' : List ω) (s : σ) :
    prepend o (.ok (o', s) : Except ε (List ω × σ)) = .ok (o ++ o', s) := rfl

theorem prepend_prepend (o o' : List ω) (r : Except ε (List ω × σ)) :
    prepend o (prepend o' r) = prepend (o ++ o') r := by
  cases r <;> simp [prepend, Except.map, List.append_assoc]

/-- Output given before a run, and the run continued. -/
theorem prepend_bind (o : List ω) (r : Except ε (List ω × σ)) (g : σ → Except ε (List ω × σ)) :
    (prepend o r).bind (fun p => prepend p.1 (g p.2)) = prepend o (r.bind fun p => prepend p.1 (g p.2)) := by
  cases r with
  | error e => rfl
  | ok p => exact (prepend_prepend o p.1 (g p.2)).symm

/-! ## The loop, round by round -/

theorem drain_of_error {s : σ} {e : ε} (h : d.step s = .error e) : d.drain s = .error e := by
  rw [drain]
  split <;> simp_all

theorem drain_of_wait {s : σ} (h : d.step s = .ok none) : d.drain s = .ok ([], s) := by
  rw [drain]
  split <;> simp_all

theorem drain_of_emit {s s' : σ} {o : List ω} (h : d.step s = .ok (some (o, s'))) :
    d.drain s = prepend o (d.drain s') := by
  rw [drain]
  split
  · simp_all
  · simp_all
  · rename_i o₁ s₁ h₁
    rw [h] at h₁
    cases h₁
    rfl

/-- The loop ends at a state that waits. -/
theorem drain_wait : ∀ {s w : σ} {o : List ω}, d.drain s = .ok (o, w) → d.step w = .ok none := by
  intro s
  induction h : d.measure s using Nat.strongRecOn generalizing s with
  | _ n ih =>
  intro w o hdrain
  rcases hs : d.step s with e | _ | ⟨o₁, s₁⟩
  · rw [drain_of_error hs] at hdrain
    cases hdrain
  · rw [drain_of_wait hs] at hdrain
    cases hdrain
    exact hs
  · rw [drain_of_emit hs] at hdrain
    cases hrest : d.drain s₁ with
    | error e => rw [hrest] at hdrain; cases hdrain
    | ok p =>
      rw [hrest] at hdrain
      cases hdrain
      exact ih _ (h ▸ d.step_lt hs) rfl hrest

/-- What every round that does not wait keeps holds where the loop stops. -/
theorem drain_invariant {P : σ → Prop} (hP : ∀ {s o s'}, P s → d.step s = .ok (some (o, s')) → P s') :
    ∀ {s w : σ} {o : List ω}, P s → d.drain s = .ok (o, w) → P w := by
  intro s
  induction h : d.measure s using Nat.strongRecOn generalizing s with
  | _ n ih =>
  intro w o hs hdrain
  rcases hstep : d.step s with e | _ | ⟨o₁, s₁⟩
  · rw [drain_of_error hstep] at hdrain
    cases hdrain
  · rw [drain_of_wait hstep] at hdrain
    cases hdrain
    exact hs
  · rw [drain_of_emit hstep] at hdrain
    cases hrest : d.drain s₁ with
    | error e => rw [hrest] at hdrain; cases hdrain
    | ok p =>
      rw [hrest] at hdrain
      cases hdrain
      exact ih _ (h ▸ d.step_lt hstep) rfl (hP hs hstep) hrest

/-- A call with no input at a state that waits gives nothing. -/
theorem feed_nil {w : σ} (hw : d.step w = .ok none) : d.feed w [] = .ok ([], w) := by
  rw [feed, d.append_nil, drain_of_wait hw]

/-- Calls that succeed: the first succeeds, and the others from where it
stopped. -/
theorem feedAll_cons_eq_ok {s w : σ} {c : List α} {cs : List (List α)} {out : List ω}
    (h : d.feedAll s (c :: cs) = .ok (out, w)) :
    ∃ o s₁ out', d.feed s c = .ok (o, s₁) ∧ d.feedAll s₁ cs = .ok (out', w) ∧ out = o ++ out' := by
  rw [feedAll] at h
  cases hfeed : d.feed s c with
  | error e => rw [hfeed] at h; cases h
  | ok p =>
    rw [hfeed] at h
    dsimp only [Except.bind] at h
    cases hrest : d.feedAll p.2 cs with
    | error e => rw [hrest] at h; cases h
    | ok q =>
      rw [hrest] at h
      cases h
      exact ⟨p.1, p.2, q.1, rfl, hrest, rfl⟩

/-! ## Cutting the input -/

/-- What a decoder does over a longer buffer, from states where `I more s`
holds, with `more` the input still to come. A failing round fails the same
way. A round that gives output `o` gives it first, maybe with more, and then
goes on as from its next state with `more` appended, where `I` holds again. -/
structure Extends (d : Decoder σ α ω ε) (I : List α → σ → Prop) : Prop where
  error : ∀ {more s e}, I more s → d.step s = .error e → d.drain (d.append s more) = .error e
  emit : ∀ {more s o s'}, I more s → d.step s = .ok (some (o, s')) →
    d.drain (d.append s more) = prepend o (d.drain (d.append s' more))
  keep : ∀ {more s o s'}, I more s → d.step s = .ok (some (o, s')) → I more s'

section Extends

variable {I : List α → σ → Prop} (hd : d.Extends I)
include hd

/-- Where the loop over the shorter buffer stops, it keeps `I`. -/
theorem drain_keeps {more : List α} {s w : σ} {o : List ω} (hI : I more s) (hdrain : d.drain s = .ok (o, w)) :
    I more w :=
  drain_invariant (fun hs hstep => hd.keep hs hstep) hI hdrain

/-- The loop over a longer buffer is the loop over the shorter one, then the
loop from where it stopped with the rest appended. -/
theorem drain_append (more : List α) : ∀ {s : σ}, I more s →
    d.drain (d.append s more) = (d.drain s).bind fun p => prepend p.1 (d.drain (d.append p.2 more)) := by
  intro s
  induction h : d.measure s using Nat.strongRecOn generalizing s with
  | _ n ih =>
  intro hI
  rcases hs : d.step s with e | _ | ⟨o, s'⟩
  · rw [hd.error hI hs, drain_of_error hs]
    rfl
  · rw [drain_of_wait hs]
    exact (prepend_nil _).symm
  · -- the round gives its output first; the rest is the loop from its next state
    rw [hd.emit hI hs, drain_of_emit hs, ih _ (h ▸ d.step_lt hs) rfl (hd.keep hI hs)]
    exact (prepend_bind o _ fun w => d.drain (d.append w more)).symm

/-- However the input is cut into calls, from a state that waits, the calls
give what one call with all of it gives. -/
theorem feedAll_eq_feed (hin : ∀ {s c more}, I (c ++ more) s → I more (d.append s c)) :
    ∀ (cs : List (List α)) {s : σ}, d.step s = .ok none → I cs.flatten s →
      d.feedAll s cs = d.feed s cs.flatten := by
  intro cs
  induction cs with
  | nil =>
    intro s hs _
    rw [feedAll, List.flatten_nil, feed_nil hs]
  | cons c cs ih =>
    intro s hs hI
    rw [List.flatten_cons] at hI
    have hI' : I cs.flatten (d.append s c) := hin hI
    rw [feedAll, List.flatten_cons, feed, feed, ← d.append_append, drain_append hd _ hI']
    -- each call stops at a state that waits and keeps `I`
    cases hcall : d.drain (d.append s c) with
    | error e => rfl
    | ok p =>
      have hw : d.step p.2 = .ok none := drain_wait hcall
      have hIw : I cs.flatten p.2 := drain_keeps hd hI' hcall
      simp only [Except.bind]
      rw [ih hw hIw, feed]

end Extends

end Decoder

end Decoding
