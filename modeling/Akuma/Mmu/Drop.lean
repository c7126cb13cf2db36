import Akuma.Mmu.AddressSpace

/-!
# Dropping an address space

`Drop for UserAddressSpace` and `UserAddressSpace::new_shared`. A shared view
(a `CLONE_THREAD` thread) uses its owner's L0 table and tracks no frames of
its own; `SHARED_L0_TABLE` counts the views of each L0. An owner dropped while
views remain parks its frames in the table's entry, and the last view to go
frees them; otherwise the owner frees them itself.

A view's drop takes the table's lock once. The owner's takes it twice
(`mod.rs` 998-1019): once to read whether views remain (`ownerHasShared`),
and again, after taking its frames out of itself, to park them in the entry
(`ownerFinish`). Run back to back the two are one drop (`dropOwner_eq_finish`),
and drops in any order free the owner's frames once each, at the last drop
(`drop_owner_and_views_frees_once`). The last view can drop between the
owner's two sections: it then removes the entry, and the owner finds none to
park its frames in, so nobody frees them (`owner_frames_leak_between_sections`).

The frames passed to `free_page` and the ASIDs given back to
`ASID_ALLOCATOR` are logged in order, so that what a sequence of drops frees
can be read off the log.
-/

namespace Akuma.Mmu

/-- `SharedL0Entry`: the views of one L0, and the owner's frames once the
owner has been dropped. The deferred user frames are kept as
`UserAddressSpace.userFrames` keeps them, one entry per reference. -/
structure SharedL0Entry where
  refCount : Nat
  deferredUserFrames : Option (List Nat)
  deferredPtFrames : Option (List Nat)
  deferredL0 : Option Nat
  deriving DecidableEq, Repr

/-- What the drops share: `SHARED_L0_TABLE`, and the frames and ASIDs freed
so far, in order. -/
structure TeardownState where
  sharedL0Table : Nat → Option SharedL0Entry
  freed : List Nat
  freedAsids : List Nat

/-- The keys of a `user_frames` map kept as a list of references: each
frame once, in ascending order. -/
def frameKeys (frames : List Nat) : List Nat := (frames.insertionSort (· ≤ ·)).dedup

/-- Everything an owner's drop frees: each tracked frame once, the table
frames, and the L0 frame. -/
def UserAddressSpace.ownedFrames (s : UserAddressSpace) : List Nat :=
  frameKeys s.userFrames ++ s.pageTableFrames ++ [s.l0Frame]

namespace TeardownState

variable (st : TeardownState)

/-- No view of any L0, and nothing freed. -/
def empty : TeardownState := ⟨fun _ => none, [], []⟩

/-- `free_page` of each frame of a list, in order. -/
def freeFrames (frames : List Nat) : TeardownState := { st with freed := st.freed ++ frames }

/-- `new_shared`: a view of the L0 table at `parentL0`, with the ASID the
allocator gives (`none` when it has none left). -/
def newShared (parentL0 : Nat) (asid : Option Nat) : Option (UserAddressSpace × TeardownState) := do
  let asid ← asid
  let entry : SharedL0Entry := match st.sharedL0Table parentL0 with
    | some e => { e with refCount := e.refCount + 1 }
    | none => ⟨1, none, none, none⟩
  pure (⟨parentL0, [], [], asid, true⟩,
    { st with sharedL0Table := Function.update st.sharedL0Table parentL0 (some entry) })

/-- The owner's first critical section: whether the entry of its L0 counts
a live view. -/
def ownerHasShared (s : UserAddressSpace) : Bool :=
  match st.sharedL0Table s.l0Frame with
  | some e => decide (e.refCount > 0)
  | none => false

/-- The rest of the owner's branch, after the check gave `hasShared`: with
views its frames are taken out of it and, in a second critical section,
parked in the entry if there still is one; without, it frees them and the
entry is removed. -/
def ownerFinish (s : UserAddressSpace) (hasShared : Bool) : TeardownState :=
  let l0Addr := s.l0Frame
  if hasShared then
    match st.sharedL0Table l0Addr with
    | some e =>
      { st with
        sharedL0Table := Function.update st.sharedL0Table l0Addr (some { e with
          deferredUserFrames := some s.userFrames
          deferredPtFrames := some s.pageTableFrames
          deferredL0 := some s.l0Frame }) }
    -- the entry is gone: the frames taken out of the owner are dropped unfreed
    | none => st
  else
    let st := st.freeFrames s.ownedFrames
    { st with sharedL0Table := Function.update st.sharedL0Table l0Addr none }

/-- The owner's branch of `Drop`: with live views its frames go to the
entry; without, it frees them and the entry is removed. -/
def dropOwner (s : UserAddressSpace) : TeardownState :=
  let l0Addr := s.l0Frame
  let hasShared := match st.sharedL0Table l0Addr with
    | some e => decide (e.refCount > 0)
    | none => false
  if hasShared then
    match st.sharedL0Table l0Addr with
    | some e =>
      { st with
        sharedL0Table := Function.update st.sharedL0Table l0Addr (some { e with
          deferredUserFrames := some s.userFrames
          deferredPtFrames := some s.pageTableFrames
          deferredL0 := some s.l0Frame }) }
    | none => st
  else
    let st := st.freeFrames s.ownedFrames
    { st with sharedL0Table := Function.update st.sharedL0Table l0Addr none }

/-- A view's branch of `Drop`: one view fewer; the last view takes the
entry away, and frees the owner's frames if the owner parked them there. -/
def dropView (s : UserAddressSpace) : TeardownState :=
  let l0Addr := s.l0Frame
  match st.sharedL0Table l0Addr with
  | none => st
  | some e =>
    let refCount := e.refCount - 1
    if refCount = 0 then
      let st := { st with sharedL0Table := Function.update st.sharedL0Table l0Addr none }
      -- the frees happen outside the lock, and only when all three were parked
      match e.deferredUserFrames, e.deferredPtFrames, e.deferredL0 with
      | some uf, some pf, some l0 => st.freeFrames (frameKeys uf ++ pf ++ [l0])
      | _, _, _ => st
    else
      { st with sharedL0Table := Function.update st.sharedL0Table l0Addr (some { e with refCount }) }

/-- `Drop for UserAddressSpace`: the branch of its kind, then its ASID goes
back to the allocator. -/
def drop (s : UserAddressSpace) : TeardownState :=
  let st := if s.shared then st.dropView s else st.dropOwner s
  { st with freedAsids := st.freedAsids ++ [s.asid] }

/-- The owner's two critical sections run back to back are its drop. -/
theorem dropOwner_eq_finish (s : UserAddressSpace) : st.dropOwner s = st.ownerFinish s (st.ownerHasShared s) :=
  rfl

end TeardownState

/-! ## Drops in any order

An owner and the views of its L0, dropped in any order: the owner's frames
stay parked until the last of them goes, and are then freed once each;
every ASID goes back once. -/

section Protocol

namespace TeardownState

variable {t : TeardownState} {o v : UserAddressSpace} {x n : Nat}

/-- The entry of an L0 with `n` live views and its owner alive. -/
def viewEntry (n : Nat) : Option SharedL0Entry := if n = 0 then none else some ⟨n, none, none, none⟩

/-- The entry of an L0 with `n` live views whose owner `o` has been
dropped. -/
def parkedEntry (o : UserAddressSpace) (n : Nat) : Option SharedL0Entry :=
  if n = 0 then none else some ⟨n, some o.userFrames, some o.pageTableFrames, some o.l0Frame⟩

/-- `v` is a shared view of the L0 table at `x`. -/
structure IsView (x : Nat) (v : UserAddressSpace) : Prop where
  shared : v.shared = true
  l0 : v.l0Frame = x

@[simp] theorem drop_freedAsids (s : UserAddressSpace) :
    (t.drop s).freedAsids = (if s.shared then t.dropView s else t.dropOwner s).freedAsids ++
      [s.asid] := rfl

theorem drop_view (hv : v.shared = true) : t.drop v = { t.dropView v with
    freedAsids := (t.dropView v).freedAsids ++ [v.asid] } := by
  simp [drop, hv]

theorem drop_owner (ho : o.shared = false) : t.drop o = { t.dropOwner o with
    freedAsids := (t.dropOwner o).freedAsids ++ [o.asid] } := by
  simp [drop, ho]

/-- A view dropped while the owner is alive: one view fewer, nothing freed. -/
theorem dropView_viewEntry (hv : IsView x v) (h : t.sharedL0Table x = viewEntry (n + 1)) :
    (t.dropView v).sharedL0Table x = viewEntry n ∧ (t.dropView v).freed = t.freed ∧
      (t.dropView v).freedAsids = t.freedAsids := by
  have he : t.sharedL0Table v.l0Frame = some ⟨n + 1, none, none, none⟩ := by
    rw [hv.l0, h, viewEntry, if_neg (Nat.succ_ne_zero n)]
  unfold dropView
  dsimp only
  rw [he]
  by_cases hn : n = 0
  · subst hn
    simp [viewEntry, hv.l0]
  · simp [viewEntry, hn, hv.l0]

/-- A view dropped after the owner: the last one frees the owner's frames. -/
theorem dropView_parkedEntry (hv : IsView x v) (h : t.sharedL0Table x = parkedEntry o (n + 1)) :
    (t.dropView v).sharedL0Table x = parkedEntry o n ∧
      (t.dropView v).freed = t.freed ++ (if n = 0 then o.ownedFrames else []) ∧
      (t.dropView v).freedAsids = t.freedAsids := by
  have he : t.sharedL0Table v.l0Frame =
      some ⟨n + 1, some o.userFrames, some o.pageTableFrames, some o.l0Frame⟩ := by
    rw [hv.l0, h, parkedEntry, if_neg (Nat.succ_ne_zero n)]
  unfold dropView
  dsimp only
  rw [he]
  by_cases hn : n = 0
  · subst hn
    simp [parkedEntry, hv.l0, freeFrames, UserAddressSpace.ownedFrames]
  · simp [parkedEntry, hn, hv.l0]

/-- The owner dropped with `n` live views: its frames are parked, or freed
when there is no view. -/
theorem dropOwner_viewEntry (h : t.sharedL0Table o.l0Frame = viewEntry n) :
    (t.dropOwner o).sharedL0Table o.l0Frame = parkedEntry o n ∧
      (t.dropOwner o).freed = t.freed ++ (if n = 0 then o.ownedFrames else []) ∧
      (t.dropOwner o).freedAsids = t.freedAsids := by
  unfold dropOwner
  by_cases hn : n = 0
  · subst hn
    simp [h, viewEntry, parkedEntry, freeFrames]
  · have hpos : 0 < n := Nat.pos_of_ne_zero hn
    simp [h, viewEntry, parkedEntry, hn, hpos]

/-- Views dropped while the owner is alive free nothing. -/
theorem foldl_drop_viewEntry {vs : List UserAddressSpace} (hvs : ∀ v ∈ vs, IsView x v)
    (h : t.sharedL0Table x = viewEntry (vs.length + n)) :
    (vs.foldl drop t).sharedL0Table x = viewEntry n ∧ (vs.foldl drop t).freed = t.freed ∧
      (vs.foldl drop t).freedAsids = t.freedAsids ++ vs.map (·.asid) := by
  induction vs generalizing t with
  | nil => simpa using h
  | cons v vs ih =>
    have hv := hvs v List.mem_cons_self
    obtain ⟨h1, h2, h3⟩ := dropView_viewEntry hv (n := vs.length + n)
      (by rw [h, List.length_cons, Nat.add_right_comm])
    obtain ⟨h1', h2', h3'⟩ := ih (t := t.drop v) (fun w hw => hvs w (List.mem_cons_of_mem v hw))
      (by rw [drop_view hv.shared]; exact h1)
    refine ⟨h1', ?_, ?_⟩
    · rw [List.foldl_cons, h2', drop_view hv.shared, h2]
    · rw [List.foldl_cons, h3', drop_view hv.shared]
      simp [h3]

/-- Views dropped after the owner: the owner's frames are freed at the last
one, and not before. -/
theorem foldl_drop_parkedEntry {vs : List UserAddressSpace} (hvs : ∀ v ∈ vs, IsView x v)
    (h : t.sharedL0Table x = parkedEntry o vs.length) :
    (vs.foldl drop t).sharedL0Table x = none ∧
      (vs.foldl drop t).freed = t.freed ++ (if vs = [] then [] else o.ownedFrames) ∧
      (vs.foldl drop t).freedAsids = t.freedAsids ++ vs.map (·.asid) := by
  induction vs generalizing t with
  | nil => simpa [parkedEntry] using h
  | cons v vs ih =>
    have hv := hvs v List.mem_cons_self
    obtain ⟨h1, h2, h3⟩ := dropView_parkedEntry hv (n := vs.length) h
    obtain ⟨h1', h2', h3'⟩ := ih (t := t.drop v) (fun w hw => hvs w (List.mem_cons_of_mem v hw))
      (by rw [drop_view hv.shared]; exact h1)
    refine ⟨h1', ?_, ?_⟩
    · rw [List.foldl_cons, h2', drop_view hv.shared, h2]
      -- the frames come at the last view, whichever of the two steps that is
      cases vs with
      | nil => simp
      | cons w ws => simp
    · rw [List.foldl_cons, h3', drop_view hv.shared]
      simp [h3]

/-- An owner and the views of its L0, dropped in any order (`before` the
owner, the owner, then `after`): the owner's frames are freed once each,
at the last drop, the entry is gone, and each ASID is given back once. -/
theorem drop_owner_and_views_frees_once (ho : o.shared = false) {before after : List UserAddressSpace}
    (hvs : ∀ v ∈ before ++ after, IsView o.l0Frame v)
    (h : t.sharedL0Table o.l0Frame = viewEntry (before.length + after.length)) :
    (let t' := after.foldl drop ((before.foldl drop t).drop o)
     t'.freed = t.freed ++ o.ownedFrames ∧ t'.sharedL0Table o.l0Frame = none ∧
       t'.freedAsids = t.freedAsids ++ before.map (·.asid) ++ [o.asid] ++ after.map (·.asid)) := by
  intro t'
  -- the views dropped first leave the entry at `after.length` views, and free nothing
  obtain ⟨h1, h2, h3⟩ := foldl_drop_viewEntry (n := after.length)
    (fun v hv => hvs v (List.mem_append_left after hv)) h
  -- the owner parks its frames, or frees them if no view is left
  obtain ⟨h4, h5, h6⟩ := dropOwner_viewEntry (o := o) h1
  -- the remaining views free the parked frames at the last of them
  obtain ⟨h7, h8, h9⟩ := foldl_drop_parkedEntry (t := (before.foldl drop t).drop o) (o := o)
    (fun v hv => hvs v (List.mem_append_right before hv))
    (by rw [drop_owner ho]; exact h4)
  refine ⟨?_, h7, ?_⟩
  · rw [h8, drop_owner ho]
    dsimp only
    rw [h5, h2]
    cases after <;> simp
  · rw [h9, drop_owner ho]
    dsimp only
    rw [h6, h3]

/-- An owner with two views, dropped between them: its two table frames
and its one user frame, tracked twice, are freed once each at the second
view's drop. -/
theorem drop_owner_and_views_frees_once_between_views :
    (let o : UserAddressSpace := ⟨0x1000, [0x2000], [0x4000, 0x4000], 1, false⟩
     let t : TeardownState :=
       ⟨Function.update (fun _ => none) 0x1000 (some ⟨2, none, none, none⟩), [], []⟩
     let before : List UserAddressSpace := [⟨0x1000, [], [], 2, true⟩]
     let after : List UserAddressSpace := [⟨0x1000, [], [], 3, true⟩]
     let t' := after.foldl drop ((before.foldl drop t).drop o)
     t'.freed = t.freed ++ o.ownedFrames ∧ t'.sharedL0Table o.l0Frame = none ∧
       t'.freedAsids = t.freedAsids ++ before.map (·.asid) ++ [o.asid] ++ after.map (·.asid)) :=
  drop_owner_and_views_frees_once rfl
    (by
      simp only [List.cons_append, List.nil_append, List.mem_cons, List.not_mem_nil, or_false]
      rintro v (rfl | rfl) <;> exact ⟨rfl, rfl⟩)
    rfl

/-! ### Views made by `new_shared` -/

/-- `new_shared` at `parentL0` once for each ASID of `asids`, in order: the
views made, and the state after. -/
def newSharedAll (t : TeardownState) (parentL0 : Nat) : List Nat → Option (List UserAddressSpace × TeardownState)
  | [] => some ([], t)
  | a :: asids => do
    let (v, t') ← t.newShared parentL0 (some a)
    let (vs, t'') ← t'.newSharedAll parentL0 asids
    pure (v :: vs, t'')

/-- `new_shared` at an L0 with `n` live views and its owner alive: one view
more, and nothing freed. -/
theorem newShared_viewEntry (h : t.sharedL0Table x = viewEntry n) (a : Nat) :
    t.newShared x (some a) = some (⟨x, [], [], a, true⟩,
      { t with sharedL0Table := Function.update t.sharedL0Table x (viewEntry (n + 1)) }) := by
  unfold newShared
  rw [h]
  -- the first view makes the entry, each later one counts up
  cases n <;> simp [viewEntry]

/-- `k` views made one after another from `viewEntry n`: the entry counts
`n + k` views, and every view made is one of that L0. From no entry, `k`
calls give the `viewEntry k` that `drop_owner_and_views_frees_once` starts
from. -/
theorem newSharedAll_viewEntry :
    ∀ (asids : List Nat) {t : TeardownState} {n : Nat}, t.sharedL0Table x = viewEntry n →
      ∃ vs t', t.newSharedAll x asids = some (vs, t') ∧ vs.map (·.asid) = asids ∧ (∀ v ∈ vs, IsView x v) ∧
        t'.sharedL0Table x = viewEntry (n + asids.length) ∧ t'.freed = t.freed ∧ t'.freedAsids = t.freedAsids
  | [], t, n, h => ⟨[], t, rfl, rfl, by simp, h, rfl, rfl⟩
  | a :: asids, t, n, h => by
    obtain ⟨vs, t', hrun, hasids, hviews, htable, hfreed, hasids'⟩ :=
      newSharedAll_viewEntry asids
        (t := { t with sharedL0Table := Function.update t.sharedL0Table x (viewEntry (n + 1)) }) (n := n + 1)
        (by simp)
    refine ⟨⟨x, [], [], a, true⟩ :: vs, t', ?_, by simp [hasids], ?_, ?_, hfreed, hasids'⟩
    · rw [newSharedAll, newShared_viewEntry h a]
      simp [hrun]
    · intro v hv
      rcases List.mem_cons.mp hv with rfl | hv
      · exact ⟨rfl, rfl⟩
      · exact hviews v hv
    · rw [htable, List.length_cons]
      ac_rfl

/-! ### The last view between the owner's two sections -/

/-- The owner and its one view, dropped at once: the owner's first section
sees the view; the view, finding the owner alive, drops the last count and
removes the entry; the owner's second section then finds no entry, so its
frames are parked nowhere. Both drops are over, and none of the owner's
frames has been freed, nor will be: no entry holds them. Run one after the
other, the same two drops free every one of them once. -/
theorem owner_frames_leak_between_sections (ho : o.shared = false) (hv : IsView o.l0Frame v)
    (h : t.sharedL0Table o.l0Frame = viewEntry 1) :
    t.ownerHasShared o = true ∧
      ((t.drop v).ownerFinish o (t.ownerHasShared o)).freed = t.freed ∧
      ((t.drop v).ownerFinish o (t.ownerHasShared o)).sharedL0Table o.l0Frame = none ∧
      ((t.drop v).drop o).freed = t.freed ++ o.ownedFrames := by
  have hshared : t.ownerHasShared o = true := by
    simp [ownerHasShared, h, viewEntry]
  -- the view's drop is the last one, with the owner alive: it frees nothing
  obtain ⟨hview, hfreed, -⟩ := dropView_viewEntry (n := 0) hv h
  have hgone : (t.drop v).sharedL0Table o.l0Frame = none := by
    rw [drop_view hv.shared]
    exact hview
  refine ⟨hshared, ?_, ?_, ?_⟩
  · rw [hshared, ownerFinish, if_pos rfl, hgone, drop_view hv.shared]
    exact hfreed
  · rw [hshared, ownerFinish, if_pos rfl, hgone]
    exact hgone
  · -- one after the other, the owner finds no view and frees its frames itself
    obtain ⟨-, hfree, -⟩ := dropOwner_viewEntry (n := 0) (o := o) (t := t.drop v) hgone
    rw [drop_owner ho, hfree, drop_view hv.shared]
    simp [hfreed]

/-- An owner with a table frame and a user frame, and one view: dropped at
once, with the view between the owner's two sections, nothing is freed. -/
theorem owner_frames_leak_between_sections_one_view :
    (let o : UserAddressSpace := ⟨0x1000, [0x2000], [0x4000], 1, false⟩
     let v : UserAddressSpace := ⟨0x1000, [], [], 2, true⟩
     let t : TeardownState := ⟨Function.update (fun _ => none) 0x1000 (some ⟨1, none, none, none⟩), [], []⟩
     t.ownerHasShared o = true ∧
      ((t.drop v).ownerFinish o (t.ownerHasShared o)).freed = t.freed ∧
      ((t.drop v).ownerFinish o (t.ownerHasShared o)).sharedL0Table o.l0Frame = none ∧
      ((t.drop v).drop o).freed = t.freed ++ o.ownedFrames) :=
  owner_frames_leak_between_sections rfl ⟨rfl, rfl⟩ (by decide)

end TeardownState

end Protocol

end Akuma.Mmu
