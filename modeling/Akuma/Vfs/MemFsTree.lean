import Akuma.Vfs.MemFs

/-!
# The tree of the in-memory filesystem

The children of a `MemoryFilesystem` directory are a `BTreeMap`: its keys
are in order and each is there once. The model keeps them in a list, so that
order is an invariant here, `FsNode.WellFormed`, kept by every call on the
tree, whether it succeeds or fails (`WellFormed.run`). With it, `BTreeMap::insert` of an entry that `remove` just took out
puts back the same map. That is what makes `rename` atomic: the node it takes
out of the old parent before it looks for the new one goes back in its place
whenever the move fails.

The first part is the map, the second the walk from the root
(`FsNode.navigate`) against the edits of one directory (`FsNode.modifyAt`),
then the rename itself, and last the invariant over runs of calls.
-/

namespace Akuma.Vfs

/-! ## Children in key order -/

namespace Children

/-- Keys strictly increasing, as `BTreeMap` keeps them. -/
def Sorted (cs : Children) : Prop := cs.Pairwise fun a b => a.1 < b.1

variable {cs : Children}

theorem get_erase_self (cs : Children) (k : Path) : get (erase cs k) k = none := by
  induction cs with
  | nil => rfl
  | cons e cs ih =>
    obtain ⟨k', v⟩ := e
    by_cases h : k' = k <;> simp [h, ih]

theorem get_erase_ne (cs : Children) {k k' : Path} (h : k' ≠ k) : get (erase cs k) k' = get cs k' := by
  induction cs with
  | nil => rfl
  | cons e cs ih =>
    obtain ⟨k'', v⟩ := e
    by_cases hk : k'' = k
    · subst hk
      simp [ih, Ne.symm h]
    · by_cases hk' : k'' = k'
      · subst hk'
        simp [hk]
      · simp [hk, hk', ih]

theorem get_insertOrdered {k : Path} (k' : Path) (v : FsNode) {cs : Children} (h : get cs k = none) :
    get (insertOrdered k v cs) k' = if k = k' then some v else get cs k' := by
  induction cs with
  | nil => simp [insertOrdered]
  | cons e cs ih =>
    obtain ⟨k'', v'⟩ := e
    have hk'' : k'' ≠ k := by
      intro hk
      simp [hk] at h
    simp only [get_cons, hk'', if_false] at h
    simp only [insertOrdered]
    -- the new entry goes before `k''` or further on; either way `k''` is another key
    by_cases hlt : k < k''
    · rw [if_pos hlt, get_cons, get_cons]
    · rw [if_neg hlt, get_cons, ih h, get_cons]
      by_cases h2 : k = k'
      · subst h2
        simp [hk'']
      · simp [h2]

@[simp] theorem get_insert_self (cs : Children) (k : Path) (v : FsNode) : get (insert cs k v) k = some v := by
  simp [insert, get_insertOrdered _ _ (get_erase_self cs k)]

theorem get_insert_ne (cs : Children) {k k' : Path} (v : FsNode) (h : k' ≠ k) :
    get (insert cs k v) k' = get cs k' := by
  simp [insert, get_insertOrdered _ _ (get_erase_self cs k), Ne.symm h, get_erase_ne cs h]

theorem erase_erase (cs : Children) (k : Path) : erase (erase cs k) k = erase cs k := by
  simp [erase, List.filter_filter]

theorem erase_insertOrdered (cs : Children) (k : Path) (v : FsNode) :
    erase (insertOrdered k v cs) k = erase cs k := by
  induction cs with
  | nil => simp [insertOrdered]
  | cons e cs ih =>
    obtain ⟨k', v'⟩ := e
    simp only [insertOrdered]
    split_ifs <;> simp [ih]

/-- A second `insert` of a key replaces the first. -/
theorem insert_insert (cs : Children) (k : Path) (v w : FsNode) :
    insert (insert cs k v) k w = insert cs k w := by
  simp only [insert, erase_insertOrdered, erase_erase]

theorem insert_erase (cs : Children) (k : Path) (v : FsNode) : insert (erase cs k) k v = insert cs k v := by
  simp only [insert, erase_erase]

theorem mem_insertOrdered {k : Path} {v : FsNode} {cs : Children} {e : Path × FsNode} :
    e ∈ insertOrdered k v cs ↔ e = (k, v) ∨ e ∈ cs := by
  induction cs with
  | nil => simp [insertOrdered]
  | cons e' cs ih =>
    obtain ⟨k', v'⟩ := e'
    simp only [insertOrdered]
    split_ifs <;> simp [ih, or_left_comm]

theorem mem_of_get {k : Path} {v : FsNode} (h : get cs k = some v) : (k, v) ∈ cs := by
  obtain ⟨e, he, hek⟩ := Option.map_eq_some_iff.mp h
  have hk := List.find?_some he
  simp only [decide_eq_true_eq] at hk
  obtain ⟨k', v'⟩ := e
  simp only at hk hek
  subst hk hek
  exact List.mem_of_find?_eq_some he

/-- A key below every key of the list goes in front. -/
theorem insertOrdered_of_lt {k : Path} {v : FsNode} {cs : Children} (h : ∀ e ∈ cs, k < e.1) :
    insertOrdered k v cs = (k, v) :: cs := by
  cases cs with
  | nil => rfl
  | cons e cs =>
    obtain ⟨k', v'⟩ := e
    simp [insertOrdered, h (k', v') List.mem_cons_self]

theorem Sorted.erase (h : Sorted cs) (k : Path) : Sorted (erase cs k) := List.Pairwise.filter _ h

theorem Sorted.insertOrdered (h : Sorted cs) {k : Path} (hk : get cs k = none) (v : FsNode) :
    Sorted (Children.insertOrdered k v cs) := by
  induction cs with
  | nil => simp [Sorted, Children.insertOrdered]
  | cons e cs ih =>
    obtain ⟨k', v'⟩ := e
    have hk' : k' ≠ k := by
      intro hk'
      simp [hk'] at hk
    simp only [get_cons, hk', if_false] at hk
    unfold Sorted at h
    rw [List.pairwise_cons] at h
    simp only [Children.insertOrdered]
    by_cases hlt : k < k'
    · -- in front: below `k'` and so below every key after it
      rw [if_pos hlt]
      refine List.Pairwise.cons (fun e he => ?_) (List.Pairwise.cons h.1 h.2)
      rcases List.mem_cons.mp he with rfl | he
      · exact hlt
      · exact lt_trans hlt (h.1 e he)
    · -- further on: `k'` is below `k` and below the rest
      rw [if_neg hlt]
      have hgt : k' < k := by
        rcases lt_trichotomy k k' with h1 | h1 | h1
        · exact absurd h1 hlt
        · exact absurd h1.symm hk'
        · exact h1
      refine List.Pairwise.cons (fun e he => ?_) (ih h.2 hk)
      rcases mem_insertOrdered.mp he with rfl | he
      · exact hgt
      · exact h.1 e he

theorem Sorted.insert (h : Sorted cs) (k : Path) (v : FsNode) : Sorted (Children.insert cs k v) :=
  (h.erase k).insertOrdered (get_erase_self cs k) v

/-- In key order, inserting the entry a key already has changes nothing. -/
theorem insert_of_get (h : Sorted cs) {k : Path} {v : FsNode} (hget : get cs k = some v) :
    Children.insert cs k v = cs := by
  induction cs with
  | nil => simp at hget
  | cons e cs ih =>
    obtain ⟨k', v'⟩ := e
    unfold Sorted at h
    rw [List.pairwise_cons] at h
    simp only [get_cons] at hget
    by_cases hk : k' = k
    · -- the entry itself: every later key is above it, so it goes back in front
      subst hk
      simp only [if_true, Option.some.injEq] at hget
      subst hget
      have hrest : erase cs k' = cs := by
        unfold erase
        rw [List.filter_eq_self]
        intro e he
        simpa using ne_of_gt (h.1 e he)
      simp only [Children.insert, erase_cons, if_true, hrest]
      exact insertOrdered_of_lt h.1
    · -- an earlier key: it stays in front and the rest is unchanged
      simp only [hk, if_false] at hget
      have hlt : k' < k := h.1 (k, v) (mem_of_get hget)
      have ih' := ih h.2 hget
      simp only [Children.insert, erase_cons, hk, if_false, Children.insertOrdered, not_lt.mpr hlt.le]
      simp only [Children.insert] at ih'
      rw [ih']

end Children

/-! ## Walks and edits of the tree -/

/-- Every directory of the tree has its children in key order. -/
inductive FsNode.WellFormed : FsNode → Prop
  | file (data : List UInt8) : WellFormed (.file data)
  | directory (cs : Children) : cs.Sorted → (∀ e ∈ cs, WellFormed e.2) → WellFormed (.directory cs)

/-- The children of a well-formed directory: in key order, each node well
formed. -/
def Children.WellFormed (cs : Children) : Prop :=
  cs.Sorted ∧ ∀ e ∈ cs, e.2.WellFormed

namespace Children

variable {cs : Children}

theorem WellFormed.insert (h : cs.WellFormed) (k : Path) {v : FsNode} (hv : v.WellFormed) :
    (cs.insert k v).WellFormed := by
  refine ⟨h.1.insert k v, fun e he => ?_⟩
  rcases mem_insertOrdered.mp he with rfl | he
  · exact hv
  · exact h.2 e (List.mem_of_mem_filter he)

theorem WellFormed.erase (h : cs.WellFormed) (k : Path) : (cs.erase k).WellFormed :=
  ⟨h.1.erase k, fun e he => h.2 e (List.mem_of_mem_filter he)⟩

theorem WellFormed.get (h : cs.WellFormed) {k : Path} {v : FsNode} (hget : cs.get k = some v) :
    v.WellFormed :=
  h.2 _ (mem_of_get hget)

/-- An edit of a directory's children that keeps them well formed, and
whose result satisfies `P`. -/
def Keeps {α : Type} (P : α → Prop) (f : Children → Except FsError (Children × α)) : Prop :=
  ∀ cs cs' a, cs.WellFormed → f cs = .ok (cs', a) → cs'.WellFormed ∧ P a

end Children

theorem FsNode.wellFormed_directory {cs : Children} : (FsNode.directory cs).WellFormed ↔ cs.WellFormed :=
  ⟨fun h => by cases h with | directory _ hs hc => exact ⟨hs, hc⟩, fun h => .directory _ h.1 h.2⟩

namespace FsNode

theorem navigate_append (node : FsNode) (a b : List Path) :
    node.navigate (a ++ b) = node.navigate a >>= fun n => n.navigate b := by
  induction a generalizing node with
  | nil => rfl
  | cons c a ih =>
    cases node with
    | file => rfl
    | directory cs =>
      simp only [List.cons_append, navigate]
      split
      · exact ih _
      · rfl

/-- A walk that gets through a path gets through each prefix of it. -/
theorem navigate_of_prefix {node n : FsNode} {a b : List Path} (hab : a <+: b)
    (h : node.navigate b = .ok n) : ∃ m, node.navigate a = .ok m := by
  obtain ⟨t, rfl⟩ := hab
  rw [navigate_append] at h
  cases ha : node.navigate a with
  | error e => rw [ha] at h; cases h
  | ok m => exact ⟨m, rfl⟩

/-- Where an edit of one directory succeeds, the walk to that directory finds
the children the edit ran on before, and those it returned after. -/
theorem navigate_modifyAt {α : Type} {f : Children → Except FsError (Children × α)} :
    ∀ (comps : List Path) (node node' : FsNode) (a : α), node.modifyAt f comps = .ok (node', a) →
      ∃ cs cs', node.navigate comps = .ok (.directory cs) ∧ f cs = .ok (cs', a) ∧
        node'.navigate comps = .ok (.directory cs')
  | [], .file _, _, _, h => by simp [modifyAt] at h
  | [], .directory cs, node', a, h => by
    obtain ⟨⟨cs', b⟩, hcs, hpure⟩ := Panicking.bind_eq_ok.mp h
    simp only [Panicking.pure_eq, Except.ok.injEq, Prod.mk.injEq] at hpure
    obtain ⟨rfl, rfl⟩ := hpure
    exact ⟨cs, cs', rfl, hcs, rfl⟩
  | _ :: _, .file _, _, _, h => by simp [modifyAt] at h
  | c :: comps, .directory children, node', a, h => by
    simp only [modifyAt] at h
    split at h
    · rename_i child hget
      obtain ⟨⟨child', b⟩, hchild, hpure⟩ := Panicking.bind_eq_ok.mp h
      simp only [Panicking.pure_eq, Except.ok.injEq, Prod.mk.injEq] at hpure
      obtain ⟨rfl, rfl⟩ := hpure
      obtain ⟨cs, cs', h1, h2, h3⟩ := navigate_modifyAt comps child child' b hchild
      exact ⟨cs, cs', by simp [navigate, hget, h1], h2, by simp [navigate, h3]⟩
    · simp at h

/-- An edit that another edit undoes on every sorted directory is undone on
the whole tree: on the way back up, the rebuilt child goes back where it was. -/
theorem modifyAt_restore {α β : Type} {f : Children → Except FsError (Children × α)}
    {g : Children → Except FsError (Children × β)} {a : α} {b : β}
    (hfg : ∀ cs cs', cs.Sorted → f cs = .ok (cs', a) → g cs' = .ok (cs, b)) :
    ∀ (comps : List Path) (node node' : FsNode), node.WellFormed →
      node.modifyAt f comps = .ok (node', a) → node'.modifyAt g comps = .ok (node, b)
  | [], .file _, _, _, h => by simp [modifyAt] at h
  | [], .directory cs, node', hwf, h => by
    obtain ⟨⟨cs', a'⟩, hcs, hpure⟩ := Panicking.bind_eq_ok.mp h
    simp only [Panicking.pure_eq, Except.ok.injEq, Prod.mk.injEq] at hpure
    obtain ⟨rfl, rfl⟩ := hpure
    cases hwf with
    | directory _ hsorted _ => simp [modifyAt, hfg cs cs' hsorted hcs]
  | _ :: _, .file _, _, _, h => by simp [modifyAt] at h
  | c :: comps, .directory children, node', hwf, h => by
    simp only [modifyAt] at h
    split at h
    · rename_i child hget
      obtain ⟨⟨child', a'⟩, hchild, hpure⟩ := Panicking.bind_eq_ok.mp h
      simp only [Panicking.pure_eq, Except.ok.injEq, Prod.mk.injEq] at hpure
      obtain ⟨rfl, rfl⟩ := hpure
      cases hwf with
      | directory _ hsorted hchildren =>
        have hwfc : child.WellFormed := hchildren _ (Children.mem_of_get hget)
        -- the child is restored below, then put back over its edited copy
        have ih := modifyAt_restore hfg comps child child' hwfc hchild
        simp [modifyAt, ih, Children.insert_insert, Children.insert_of_get hsorted hget]
    · simp at h

/-- An edit of one directory that keeps its children well formed keeps the
whole tree well formed: on the way back up, each rebuilt child replaces the
one `get` found. -/
theorem WellFormed.modifyAt {α : Type} {P : α → Prop} {f : Children → Except FsError (Children × α)}
    (hf : Children.Keeps P f) :
    ∀ (comps : List Path) (node node' : FsNode) (a : α), node.WellFormed →
      node.modifyAt f comps = .ok (node', a) → node'.WellFormed ∧ P a
  | [], .file _, _, _, _, h => by simp [FsNode.modifyAt] at h
  | [], .directory cs, node', a, hwf, h => by
    obtain ⟨⟨cs', b⟩, hcs, hpure⟩ := Panicking.bind_eq_ok.mp h
    simp only [Panicking.pure_eq, Except.ok.injEq, Prod.mk.injEq] at hpure
    obtain ⟨rfl, rfl⟩ := hpure
    obtain ⟨hcs', ha⟩ := hf cs cs' b (wellFormed_directory.mp hwf) hcs
    exact ⟨wellFormed_directory.mpr hcs', ha⟩
  | _ :: _, .file _, _, _, _, h => by simp [FsNode.modifyAt] at h
  | c :: comps, .directory children, node', a, hwf, h => by
    simp only [FsNode.modifyAt] at h
    split at h
    · rename_i child hget
      obtain ⟨⟨child', b⟩, hchild, hpure⟩ := Panicking.bind_eq_ok.mp h
      simp only [Panicking.pure_eq, Except.ok.injEq, Prod.mk.injEq] at hpure
      obtain ⟨rfl, rfl⟩ := hpure
      have hcs := wellFormed_directory.mp hwf
      obtain ⟨hchild', ha⟩ := WellFormed.modifyAt hf comps child child' b (hcs.get hget) hchild
      exact ⟨wellFormed_directory.mpr (hcs.insert c hchild'), ha⟩
    · simp at h

/-- An edit of a directory that changes no entry but `name`. -/
def Touches {α : Type} (f : Children → Except FsError (Children × α)) (name : Path) : Prop :=
  ∀ cs cs' a, f cs = .ok (cs', a) → ∀ x ≠ name, Children.get cs' x = Children.get cs x

/-- Paths that neither lead to the edited entry nor pass through it walk as
before the edit. -/
theorem navigate_modifyAt_of_diverge {α : Type} {f : Children → Except FsError (Children × α)}
    {name : Path} (hf : Touches f name) :
    ∀ (comps : List Path) (node node' : FsNode) (a : α), node.modifyAt f comps = .ok (node', a) →
      ∀ p, ¬ p <+: comps ++ [name] → ¬ comps ++ [name] <+: p → node'.navigate p = node.navigate p
  | [], .file _, _, _, h, _, _, _ => by simp [modifyAt] at h
  | [], .directory cs, node', a, h, p, h1, h2 => by
    obtain ⟨⟨cs', a'⟩, hcs, hpure⟩ := Panicking.bind_eq_ok.mp h
    simp only [Panicking.pure_eq, Except.ok.injEq, Prod.mk.injEq] at hpure
    obtain ⟨rfl, rfl⟩ := hpure
    cases p with
    | nil => exact absurd List.nil_prefix h1
    | cons x ps =>
      -- the first step is to another entry than `name`, which the edit kept
      have hx : x ≠ name := by
        rintro rfl
        exact h2 (by simp)
      simp [navigate, hf cs cs' a' hcs x hx]
  | _ :: _, .file _, _, _, h, _, _, _ => by simp [modifyAt] at h
  | c :: comps, .directory children, node', a, h, p, h1, h2 => by
    simp only [modifyAt] at h
    split at h
    · rename_i child hget
      obtain ⟨⟨child', a'⟩, hchild, hpure⟩ := Panicking.bind_eq_ok.mp h
      simp only [Panicking.pure_eq, Except.ok.injEq, Prod.mk.injEq] at hpure
      obtain ⟨rfl, rfl⟩ := hpure
      cases p with
      | nil => exact absurd List.nil_prefix h1
      | cons x ps =>
        by_cases hx : x = c
        · -- through the edited child: the rest of the path diverges there
          subst hx
          have h1' : ¬ ps <+: comps ++ [name] := fun h => h1 (by simpa using h)
          have h2' : ¬ comps ++ [name] <+: ps := fun h => h2 (by simpa using h)
          simp [navigate, hget, navigate_modifyAt_of_diverge hf comps child child' a' hchild ps h1' h2']
        · simp [navigate, Children.get_insert_ne _ _ hx]
    · simp at h

end FsNode

/-! ## Renaming -/

namespace MemoryFilesystem

/-- The entry `navigate_parent` reaches for `path`: the components of its
parent, then its file name. -/
def entryComponents (path : Path) : List Path := parentComponents (splitPath path).1 ++ [(splitPath path).2]

variable (fs : MemoryFilesystem)

/-- `navigate_parent` runs the edit wherever the walk to the parent
succeeds and the file name is not empty. -/
theorem atParent_of_modifyAt {α : Type} {path : Path} {f : Children → Path → Except FsError (Children × α)}
    {root : FsNode} {a : α} (hname : (splitPath path).2 ≠ [])
    (h : fs.root.modifyAt (fun cs => f cs (splitPath path).2) (parentComponents (splitPath path).1) =
      .ok (root, a)) :
    fs.atParent path f = .ok ({ fs with root }, a) := by
  unfold atParent
  rcases hsp : splitPath path with ⟨parentPath, filename⟩
  rw [hsp] at hname h
  simp only [hname, if_false, h]
  rfl

theorem name_ne_nil_of_atParent {α : Type} {path : Path} {f : Children → Path → Except FsError (Children × α)}
    {r : MemoryFilesystem × α} (h : fs.atParent path f = .ok r) : (splitPath path).2 ≠ [] := by
  unfold atParent at h
  rcases hsp : splitPath path with ⟨parentPath, filename⟩
  rw [hsp] at h
  dsimp only at h ⊢
  rintro rfl
  simp at h

/-- What the first step of `rename` does when it succeeds: it takes the
entry at the old path out, changing no path that avoids it, and putting the
entry back where it was gives the tree it started from. -/
theorem rename_take (hwf : fs.root.WellFormed) {oldPath : Path} {fs1 : MemoryFilesystem}
    {name : Path} {node : FsNode}
    (h : fs.atParent oldPath (fun parent oldFilename =>
        match parent.get oldFilename with
        | some node => pure (parent.erase oldFilename, (oldFilename, node))
        | none => .error .notFound) = .ok (fs1, (name, node))) :
    fs.root.navigate (entryComponents oldPath) = .ok node ∧
      fs1.root.navigate (entryComponents oldPath) = .error .notFound ∧
      (∃ d, fs1.root.navigate (parentComponents (splitPath oldPath).1) = .ok d) ∧
      fs1.maxSize = fs.maxSize ∧
      (∀ p, ¬ p <+: entryComponents oldPath → ¬ entryComponents oldPath <+: p →
        fs1.root.navigate p = fs.root.navigate p) ∧
      fs1.atParent oldPath (fun parent _ => pure (parent.insert name node, ())) = .ok (fs, ()) := by
  obtain ⟨root1, hroot, rfl⟩ := fs.atParent_eq_ok h
  obtain ⟨cs, cs', hnav, hcs, hnav'⟩ := FsNode.navigate_modifyAt _ _ _ _ hroot
  -- the edit found the entry in the parent and erased it
  have hget : ∃ v, Children.get cs (splitPath oldPath).2 = some v := by
    cases hg : Children.get cs (splitPath oldPath).2 with
    | none => simp [hg] at hcs
    | some v => exact ⟨v, rfl⟩
  obtain ⟨v, hget⟩ := hget
  simp only [hget, Panicking.pure_eq, Except.ok.injEq, Prod.mk.injEq] at hcs
  obtain ⟨rfl, rfl, rfl⟩ := hcs
  have hname : (splitPath oldPath).2 ≠ [] := fs.name_ne_nil_of_atParent h
  have htouch : FsNode.Touches (fun cs => match Children.get cs (splitPath oldPath).2 with
      | some node => pure (Children.erase cs (splitPath oldPath).2, ((splitPath oldPath).2, node))
      | none => .error .notFound) (splitPath oldPath).2 := by
    intro cs cs' a hcs x hx
    dsimp only at hcs
    split at hcs
    · simp only [Panicking.pure_eq, Except.ok.injEq, Prod.mk.injEq] at hcs
      obtain ⟨rfl, -⟩ := hcs
      exact Children.get_erase_ne cs hx
    · cases hcs
  refine ⟨?_, ?_, ⟨_, hnav'⟩, rfl,
    fun p h1 h2 => FsNode.navigate_modifyAt_of_diverge htouch _ _ _ _ hroot p h1 h2, ?_⟩
  · simp [entryComponents, FsNode.navigate_append, hnav, FsNode.navigate, hget]
  · simp [entryComponents, FsNode.navigate_append, hnav', FsNode.navigate, Children.get_erase_self]
  · -- putting the entry back undoes the erase, directory by directory
    have hfg : ∀ cs0 cs0', Children.Sorted cs0 →
        (match Children.get cs0 (splitPath oldPath).2 with
          | some node => pure (Children.erase cs0 (splitPath oldPath).2, ((splitPath oldPath).2, node))
          | none => .error .notFound : Except FsError (Children × Path × FsNode)) =
            .ok (cs0', ((splitPath oldPath).2, v)) →
        (pure (Children.insert cs0' (splitPath oldPath).2 v, ()) : Except FsError (Children × Unit)) =
          .ok (cs0, ()) := by
      intro cs0 cs0' hsorted hcs
      split at hcs
      · rename_i node hnode
        simp only [Panicking.pure_eq, Except.ok.injEq, Prod.mk.injEq] at hcs
        obtain ⟨rfl, -, rfl⟩ := hcs
        rw [Children.insert_erase, Children.insert_of_get hsorted hnode]
        rfl
      · cases hcs
    exact @atParent_of_modifyAt { fs with root := root1 } Unit oldPath
      (fun parent _ => pure (parent.insert (splitPath oldPath).2 v, ())) fs.root () hname
      (FsNode.modifyAt_restore hfg _ _ _ hwf hroot)

/-- What the second step of `rename` does when it succeeds: the parent of
the new path was there and had no entry of the new name, the node is now
that entry, and no path that avoids it changed. -/
theorem rename_put {newPath : Path} {fs1 fs2 : MemoryFilesystem} {node : FsNode}
    (h : fs1.atParent newPath (fun parent newFilename =>
        if parent.containsKey newFilename then .error .alreadyExists
        else pure (parent.insert newFilename node, ())) = .ok (fs2, ())) :
    fs2.root.navigate (entryComponents newPath) = .ok node ∧
      (∃ d, fs1.root.navigate (parentComponents (splitPath newPath).1) = .ok d) ∧
      fs1.root.navigate (entryComponents newPath) = .error .notFound ∧
      fs2.maxSize = fs1.maxSize ∧
      ∀ p, ¬ p <+: entryComponents newPath → ¬ entryComponents newPath <+: p →
        fs2.root.navigate p = fs1.root.navigate p := by
  obtain ⟨root2, hroot, rfl⟩ := fs1.atParent_eq_ok h
  obtain ⟨cs, cs', hnav, hcs, hnav'⟩ := FsNode.navigate_modifyAt _ _ _ _ hroot
  -- the edit found no entry of the name and inserted the node
  have hfree : Children.get cs (splitPath newPath).2 = none := by
    by_contra hsome
    simp [Children.containsKey, Option.isSome_iff_ne_none.mpr hsome] at hcs
  have hcs' : cs' = Children.insert cs (splitPath newPath).2 node := by
    simp [Children.containsKey, hfree] at hcs
    exact hcs.symm
  subst hcs'
  have htouch : FsNode.Touches (fun cs => if Children.containsKey cs (splitPath newPath).2 then
      .error .alreadyExists else pure (Children.insert cs (splitPath newPath).2 node, ()))
      (splitPath newPath).2 := by
    intro cs cs' a hcs x hx
    dsimp only at hcs
    split at hcs
    · cases hcs
    · simp only [Panicking.pure_eq, Except.ok.injEq, Prod.mk.injEq] at hcs
      obtain ⟨rfl, -⟩ := hcs
      exact Children.get_insert_ne cs node hx
  refine ⟨?_, ⟨_, hnav⟩, ?_, rfl,
    fun p h1 h2 => FsNode.navigate_modifyAt_of_diverge htouch _ _ _ _ hroot p h1 h2⟩
  · simp [entryComponents, FsNode.navigate_append, hnav', FsNode.navigate]
  · simp [entryComponents, FsNode.navigate_append, hnav, FsNode.navigate, hfree]

/-- `rename` is atomic. When it fails, the tree is exactly as it was: the
node it took out goes back in its place, whichever step failed. When it
succeeds, the node at the old path is at the new one, the old path is gone
unless the two are the same, and every path that neither leads to nor passes
through either one walks as before. -/
theorem rename_atomic (hwf : fs.root.WellFormed) (oldPath newPath : Path) :
    (∀ e fs', fs.rename oldPath newPath = .error e fs' → fs' = fs) ∧
    (∀ fs', fs.rename oldPath newPath = .ok () fs' → fs'.maxSize = fs.maxSize ∧
      ∃ node, fs.root.navigate (entryComponents oldPath) = .ok node ∧
        fs'.root.navigate (entryComponents newPath) = .ok node ∧
        (entryComponents oldPath ≠ entryComponents newPath →
          fs'.root.navigate (entryComponents oldPath) = .error .notFound) ∧
        ∀ p, ¬ p <+: entryComponents oldPath → ¬ entryComponents oldPath <+: p →
          ¬ p <+: entryComponents newPath → ¬ entryComponents newPath <+: p →
          fs'.root.navigate p = fs.root.navigate p) := by
  unfold rename
  split
  · -- the old entry is not there: nothing was taken out
    exact ⟨fun e fs' h => (by cases h; rfl), fun fs' h => by cases h⟩
  rename_i fs1 oldFilename node hat1
  obtain ⟨hold, hgone, ⟨d1, hpar1⟩, hmax1, hframe1, hback⟩ := fs.rename_take hwf hat1
  split
  · rename_i fs2 hat2
    obtain ⟨hnew, ⟨d2, hpar2⟩, hfree, hmax2, hframe2⟩ := rename_put hat2
    refine ⟨fun e fs' h => (by cases h), fun fs' h => ?_⟩
    cases h
    refine ⟨hmax2.trans hmax1, node, hold, hnew, fun hne => ?_,
      fun p h1 h2 h3 h4 => (hframe2 p h3 h4).trans (hframe1 p h1 h2)⟩
    -- the old entry is neither above the new one, whose parent was found after the
    -- old entry had gone, nor below it, which was not there while the old parent was
    have hnot1 : ¬ entryComponents oldPath <+: entryComponents newPath := by
      intro hp
      rcases List.prefix_concat_iff.mp hp with heq | hp
      · exact hne heq
      · obtain ⟨m, hm⟩ := FsNode.navigate_of_prefix hp hpar2
        rw [hgone] at hm
        cases hm
    have hnot2 : ¬ entryComponents newPath <+: entryComponents oldPath := by
      intro hp
      rcases List.prefix_concat_iff.mp hp with heq | hp
      · exact hne heq.symm
      · obtain ⟨m, hm⟩ := FsNode.navigate_of_prefix hp hpar1
        rw [hfree] at hm
        cases hm
    rw [hframe2 _ hnot1 hnot2, hgone]
  · -- the new entry cannot be made: the retry puts the old one back
    rename_i e hat2
    simp only [hback]
    exact ⟨fun e' fs' h => (by cases h; rfl), fun fs' h => by cases h⟩

/-! ## Every call keeps the tree well formed -/

/-- `navigate_parent` with an edit that keeps every directory's children
well formed keeps the tree well formed. -/
theorem WellFormed.atParent {α : Type} {P : α → Prop} {path : Path}
    {f : Children → Path → Except FsError (Children × α)} (hf : ∀ name, Children.Keeps P fun cs => f cs name)
    (hwf : fs.root.WellFormed) {fs' : MemoryFilesystem} {a : α} (h : fs.atParent path f = .ok (fs', a)) :
    fs'.root.WellFormed ∧ P a := by
  obtain ⟨root, hroot, rfl⟩ := fs.atParent_eq_ok h
  exact FsNode.WellFormed.modifyAt (hf _) _ _ _ _ hwf hroot

/-- The edit of a call that puts a well-formed node under the name, or
fails. -/
theorem keeps_insert {v : FsNode} (hv : v.WellFormed) (name : Path) :
    Children.Keeps (fun _ : Unit => True) fun cs => pure (cs.insert name v, ()) := by
  intro cs cs' a hcs h
  simp only [Panicking.pure_eq, Except.ok.injEq, Prod.mk.injEq] at h
  obtain ⟨rfl, -⟩ := h
  exact ⟨hcs.insert name hv, trivial⟩

theorem writeFile_wellFormed (hwf : fs.root.WellFormed) {path : Path} {data : List UInt8}
    {fs' : MemoryFilesystem} (h : fs.writeFile path data = .ok fs') : fs'.root.WellFormed :=
  (WellFormed.atParent fs (keeps_insert (.file data)) hwf (fs.atParent_of_checkQuota_bind_eq_ok h).2).1

theorem writeAt_wellFormed (hwf : fs.root.WellFormed) {path : Path} {offset n : Nat} {data : List UInt8}
    {fs' : MemoryFilesystem} (h : fs.writeAt path offset data = .ok (n, fs')) : fs'.root.WellFormed := by
  unfold writeAt at h
  split_ifs at h
  · cases h
    exact hwf
  obtain ⟨⟨fs1, m⟩, hat, hpure⟩ := Panicking.bind_eq_ok.mp h
  simp only [Panicking.pure_eq, Except.ok.injEq, Prod.mk.injEq] at hpure
  obtain ⟨rfl, rfl⟩ := hpure
  -- the new bytes replace the file `get` found
  refine (WellFormed.atParent fs (P := fun _ => True) (fun name cs cs' a hcs hf => ?_) hwf hat).1
  dsimp only at hf
  split at hf
  · simp only [Panicking.pure_eq, Except.ok.injEq, Prod.mk.injEq] at hf
    obtain ⟨rfl, -⟩ := hf
    exact ⟨hcs.insert name (.file _), trivial⟩
  · cases hf
  · cases hf

theorem appendFile_wellFormed (hwf : fs.root.WellFormed) {path : Path} {data : List UInt8}
    {fs' : MemoryFilesystem} (h : fs.appendFile path data = .ok fs') : fs'.root.WellFormed := by
  refine (WellFormed.atParent fs (P := fun _ => True) (fun name cs cs' a hcs hf => ?_) hwf
    (fs.atParent_of_checkQuota_bind_eq_ok h).2).1
  -- a file at the name, grown, or a new one
  dsimp only at hf
  split at hf
  · exact keeps_insert (.file _) name cs cs' a hcs hf
  · cases hf
  · exact keeps_insert (.file data) name cs cs' a hcs hf

theorem createDir_wellFormed (hwf : fs.root.WellFormed) {path : Path} {fs' : MemoryFilesystem}
    (h : fs.createDir path = .ok fs') : fs'.root.WellFormed := by
  refine (WellFormed.atParent fs (P := fun _ => True) (fun name cs cs' a hcs hf => ?_) hwf
    (fs.atParent_of_bind_eq_ok h)).1
  dsimp only at hf
  split_ifs at hf
  exact keeps_insert (.directory _ (by simp [Children.Sorted]) (by simp)) name cs cs' a hcs hf

/-- The edit of a call that removes the entry under the name, or fails. -/
theorem keeps_erase {cs cs' : Children} {name : Path} (hcs : cs.WellFormed)
    (h : (pure (cs.erase name, ()) : Except FsError (Children × Unit)) = .ok (cs', ())) : cs'.WellFormed := by
  simp only [Panicking.pure_eq, Except.ok.injEq, Prod.mk.injEq] at h
  obtain ⟨rfl, -⟩ := h
  exact hcs.erase name

theorem removeFile_wellFormed (hwf : fs.root.WellFormed) {path : Path} {fs' : MemoryFilesystem}
    (h : fs.removeFile path = .ok fs') : fs'.root.WellFormed := by
  refine (WellFormed.atParent fs (P := fun _ => True) (fun name cs cs' a hcs hf => ?_) hwf
    (fs.atParent_of_bind_eq_ok h)).1
  dsimp only at hf
  split at hf
  · exact ⟨keeps_erase hcs hf, trivial⟩
  · cases hf
  · cases hf

theorem removeDir_wellFormed (hwf : fs.root.WellFormed) {path : Path} {fs' : MemoryFilesystem}
    (h : fs.removeDir path = .ok fs') : fs'.root.WellFormed := by
  refine (WellFormed.atParent fs (P := fun _ => True) (fun name cs cs' a hcs hf => ?_) hwf
    (fs.atParent_of_bind_eq_ok h)).1
  dsimp only at hf
  split at hf
  · split_ifs at hf
    exact ⟨keeps_erase hcs hf, trivial⟩
  · cases hf
  · cases hf

/-- `rename` takes a node out of a well-formed tree, so a well-formed node,
and puts it into the new parent or back into the old one. -/
theorem renameState_wellFormed (hwf : fs.root.WellFormed) (oldPath newPath : Path) :
    (fs.renameState oldPath newPath).root.WellFormed := by
  unfold renameState
  generalize hr : fs.rename oldPath newPath = r
  unfold rename at hr
  split at hr
  · subst hr
    exact hwf
  rename_i fs1 oldFilename node hat1
  have htake : ∀ name, Children.Keeps (fun a : Path × FsNode => a.2.WellFormed) fun cs =>
      match cs.get name with
      | some node => pure (cs.erase name, (name, node))
      | none => .error .notFound := by
    intro name cs cs' a hcs hf
    dsimp only at hf
    split at hf
    · rename_i v hget
      simp only [Panicking.pure_eq, Except.ok.injEq, Prod.mk.injEq] at hf
      obtain ⟨rfl, rfl⟩ := hf
      exact ⟨hcs.erase name, hcs.get hget⟩
    · cases hf
  obtain ⟨hwf1, hnode⟩ := WellFormed.atParent fs htake hwf hat1
  split at hr
  · rename_i fs2 hat2
    subst hr
    refine (WellFormed.atParent fs1 (P := fun _ => True) (fun name cs cs' a hcs hf => ?_) hwf1 hat2).1
    dsimp only at hf
    split_ifs at hf
    exact keeps_insert hnode name cs cs' a hcs hf
  · -- the node goes back under its old name
    split at hr
    · rename_i fs2 hat3
      subst hr
      exact (WellFormed.atParent fs1 (fun _ => keeps_insert hnode oldFilename) hwf1 hat3).1
    · subst hr
      exact hwf1

/-- Each call leaves a well-formed tree well formed, whether it succeeds or
fails. -/
theorem WellFormed.apply (hwf : fs.root.WellFormed) (op : Op) : (Op.apply fs op).root.WellFormed := by
  -- the tree after a call that failed before it wrote is the tree before
  have hafter : ∀ r : Except FsError MemoryFilesystem, (∀ fs', r = .ok fs' → fs'.root.WellFormed) →
      (fs.afterCall r).root.WellFormed := fun r hr => by
    cases r with
    | error => exact hwf
    | ok fs' => exact hr fs' rfl
  cases op with
  | writeFile path data => exact hafter _ fun _ => fs.writeFile_wellFormed hwf
  | writeAt path offset data =>
    refine hafter _ fun fs' h => ?_
    cases hw : fs.writeAt path offset data with
    | error e =>
      rw [hw] at h
      cases h
    | ok r =>
      rw [hw] at h
      cases h
      exact fs.writeAt_wellFormed hwf hw
  | appendFile path data => exact hafter _ fun _ => fs.appendFile_wellFormed hwf
  | createDir path => exact hafter _ fun _ => fs.createDir_wellFormed hwf
  | removeFile path => exact hafter _ fun _ => fs.removeFile_wellFormed hwf
  | removeDir path => exact hafter _ fun _ => fs.removeDir_wellFormed hwf
  | rename oldPath newPath => exact fs.renameState_wellFormed hwf oldPath newPath

/-- Every run of calls from a well-formed tree keeps it well formed; by
induction on the calls. -/
theorem WellFormed.run (hwf : fs.root.WellFormed) (ops : List Op) : (fs.run ops).root.WellFormed := by
  induction ops generalizing fs with
  | nil => exact hwf
  | cons op ops ih => exact ih _ (WellFormed.apply fs hwf op)

/-- A filesystem whose root holds the directory `a`, which holds the file
`x`. -/
def nestedDirFs : MemoryFilesystem :=
  ⟨.directory [("a".toList, .directory [("x".toList, .file [1])])], 0⟩

/-- Moving `a` into itself fails, and the tree is left as it was. -/
theorem rename_atomic_on_nested_dir :
    nestedDirFs.root.WellFormed ∧
      ∀ e fs', nestedDirFs.rename "/a".toList "/a/b".toList = .error e fs' → fs' = nestedDirFs := by
  have hwf : nestedDirFs.root.WellFormed := by
    refine .directory _ (by simp [Children.Sorted]) fun e he => ?_
    simp only [List.mem_singleton] at he
    subst he
    exact .directory _ (by simp [Children.Sorted]) fun e he => by
      simp only [List.mem_singleton] at he
      subst he
      exact .file _
  exact ⟨hwf, (rename_atomic nestedDirFs hwf _ _).1⟩

example : nestedDirFs.rename "/a".toList "/a/b".toList = .error .notFound nestedDirFs := rfl

end MemoryFilesystem

end Akuma.Vfs
