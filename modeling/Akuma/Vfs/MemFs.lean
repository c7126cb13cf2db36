import Akuma.Vfs.Basic
import Akuma.Lib.Panic

/-!
# The in-memory filesystem

`MemoryFilesystem` of `memfs.rs`: a tree of directories and files kept
under one lock, with an optional limit `max_size` on the bytes of all its
files (`0` for none). `write_file` and `append_file` check the limit
against the size of the whole tree before they write; `write_at`, which
zero-fills up to its offset when it writes past the end of a file, checks
nothing.

A directory's children are a `BTreeMap<String, FsNode>`: here an
association list in key order, as the map iterates. `insert` drops any
entry under the key and puts the new one in its place in the order, so on
the maps the filesystem builds (one entry per key) it is `BTreeMap::insert`.
Time stamps are read only by `metadata`, which is left out with them; the
bytes of a name are those of its characters.

The results bound the tree's size across each operation: every operation
but `write_at` keeps it within the limit, and `write_at` can take it past
the limit, after which `stats` computes its free space by a subtraction
that wraps.
-/

namespace Akuma.Vfs

/-- `FsNode`. -/
inductive FsNode where
  | file (data : List UInt8)
  | directory (children : List (Path × FsNode))
  deriving Repr

/-- The children of a directory. -/
abbrev Children := List (Path × FsNode)

namespace Children

variable (cs : Children)

/-- `BTreeMap::get`. -/
def get (k : Path) : Option FsNode := (cs.find? (·.1 = k)).map (·.2)

/-- `BTreeMap::remove`. -/
def erase (k : Path) : Children := cs.filter (·.1 ≠ k)

/-- Put an entry in key order. -/
def insertOrdered (k : Path) (v : FsNode) : Children → Children
  | [] => [(k, v)]
  | (k', v') :: rest => if k < k' then (k, v) :: (k', v') :: rest else (k', v') :: insertOrdered k v rest

/-- `BTreeMap::insert`. -/
def insert (k : Path) (v : FsNode) : Children := insertOrdered k v (cs.erase k)

/-- `BTreeMap::contains_key`. -/
def containsKey (k : Path) : Bool := (cs.get k).isSome

@[simp] theorem get_nil (k : Path) : get [] k = none := rfl

@[simp] theorem get_cons (k k' : Path) (v : FsNode) :
    get ((k', v) :: cs) k = if k' = k then some v else get cs k := by
  by_cases h : k' = k <;> simp [get, h]

@[simp] theorem erase_nil (k : Path) : erase [] k = [] := rfl

@[simp] theorem erase_cons (k k' : Path) (v : FsNode) :
    erase ((k', v) :: cs) k = if k' = k then erase cs k else (k', v) :: erase cs k := by
  by_cases h : k' = k <;> simp [erase, h]

end Children

/-! ## Sizes -/

mutual

/-- `total_size`: the bytes of the files of a tree. -/
def FsNode.totalSize : FsNode → Nat
  | .file data => data.length
  | .directory children => childrenSize children

/-- The bytes of the files under a list of children. -/
def childrenSize : Children → Nat
  | [] => 0
  | (_, n) :: cs => n.totalSize + childrenSize cs

end

@[simp] theorem totalSize_file (data : List UInt8) : (FsNode.file data).totalSize = data.length := by
  simp [FsNode.totalSize]

@[simp] theorem totalSize_directory (children : Children) :
    (FsNode.directory children).totalSize = childrenSize children := by
  simp [FsNode.totalSize]

@[simp] theorem childrenSize_nil : childrenSize [] = 0 := by
  simp [childrenSize]

@[simp] theorem childrenSize_cons (k : Path) (n : FsNode) (cs : Children) :
    childrenSize ((k, n) :: cs) = n.totalSize + childrenSize cs := by
  simp [childrenSize]

theorem childrenSize_insertOrdered (k : Path) (v : FsNode) (cs : Children) :
    childrenSize (Children.insertOrdered k v cs) = v.totalSize + childrenSize cs := by
  induction cs with
  | nil => simp [Children.insertOrdered]
  | cons kv rest ih =>
    obtain ⟨k', v'⟩ := kv
    unfold Children.insertOrdered
    split
    · simp
    · simp only [childrenSize_cons, ih]
      omega

theorem childrenSize_erase_le (cs : Children) (k : Path) :
    childrenSize (cs.erase k) ≤ childrenSize cs := by
  induction cs with
  | nil => simp
  | cons kv rest ih =>
    obtain ⟨k', v'⟩ := kv
    by_cases hk : k' = k
    · simp only [Children.erase_cons, hk, if_true, childrenSize_cons]
      omega
    · simp only [Children.erase_cons, hk, if_false, childrenSize_cons]
      omega

/-- Removing a key takes out at least the node that `get` finds under it;
exactly that node when the key is there once, as in a `BTreeMap`. -/
theorem childrenSize_erase_add_le (cs : Children) (k : Path) (v : FsNode)
    (h : cs.get k = some v) : childrenSize (cs.erase k) + v.totalSize ≤ childrenSize cs := by
  induction cs with
  | nil => simp at h
  | cons kv rest ih =>
    obtain ⟨k', v'⟩ := kv
    by_cases hk : k' = k
    · simp only [Children.get_cons, hk, if_true, Option.some.injEq] at h
      subst h
      have := childrenSize_erase_le rest k
      simp only [Children.erase_cons, hk, if_true, childrenSize_cons]
      omega
    · simp only [Children.get_cons, hk, if_false] at h
      have := ih h
      simp only [Children.erase_cons, hk, if_false, childrenSize_cons]
      omega

theorem childrenSize_insert (cs : Children) (k : Path) (v : FsNode) :
    childrenSize (cs.insert k v) = v.totalSize + childrenSize (cs.erase k) :=
  childrenSize_insertOrdered k v _

theorem childrenSize_insert_le (cs : Children) (k : Path) (v : FsNode) :
    childrenSize (cs.insert k v) ≤ v.totalSize + childrenSize cs := by
  have := childrenSize_erase_le cs k
  rw [childrenSize_insert]
  omega

/-! ## Navigation -/

/-- The components of a parent path: `split('/')`, empty pieces dropped. -/
def parentComponents (parentPath : Path) : List Path :=
  (splitSlash parentPath).filter (· ≠ [])

/-- `navigate`: the node a list of components leads to. -/
def FsNode.navigate : FsNode → List Path → Except FsError FsNode
  | node, [] => .ok node
  | .directory children, c :: cs =>
    match Children.get children c with
    | some child => child.navigate cs
    | none => .error .notFound
  | .file _, _ :: _ => .error .notADirectory

/-- `navigate_parent` with the work done through the `&mut` borrow it
returns: walk the components to the parent directory, run `f` on its
children, and rebuild the path back up. -/
def FsNode.modifyAt {α : Type} (f : Children → Except FsError (Children × α)) :
    FsNode → List Path → Except FsError (FsNode × α)
  | .file _, _ => .error .notADirectory
  | .directory children, [] => do
    let (children, a) ← f children
    pure (.directory children, a)
  | .directory children, c :: cs =>
    match Children.get children c with
    | some child => do
      let (child, a) ← child.modifyAt f cs
      pure (.directory (Children.insert children c child), a)
    | none => .error .notFound

/-- An edit of a directory's children that, when it succeeds with `a`, adds
at most `e a` bytes to them and takes out at least `d a`. -/
def Grows {α : Type} (f : Children → Except FsError (Children × α)) (d e : α → Nat) : Prop :=
  ∀ cs cs' a, f cs = .ok (cs', a) → childrenSize cs' + d a ≤ childrenSize cs + e a

/-- The bytes an edit of one directory adds or takes out are those the whole
tree gains or loses: on the way back up, the rebuilt child replaces the one
`get` found. -/
theorem FsNode.totalSize_modifyAt {α : Type} {f : Children → Except FsError (Children × α)}
    {d e : α → Nat} (hf : Grows f d e) :
    ∀ (comps : List Path) (node node' : FsNode) (a : α), node.modifyAt f comps = .ok (node', a) →
      node'.totalSize + d a ≤ node.totalSize + e a := by
  intro comps
  induction comps with
  | nil =>
    intro node node' a h
    cases node with
    | file => simp [modifyAt] at h
    | directory children =>
      obtain ⟨⟨cs', b⟩, hcs, hpure⟩ := Panicking.bind_eq_ok.mp h
      simp only [Panicking.pure_eq, Except.ok.injEq, Prod.mk.injEq] at hpure
      obtain ⟨rfl, rfl⟩ := hpure
      simpa using hf _ _ _ hcs
  | cons c comps ih =>
    intro node node' a h
    cases node with
    | file => simp [modifyAt] at h
    | directory children =>
      simp only [modifyAt] at h
      split at h
      · rename_i child hget
        obtain ⟨⟨child', b⟩, hchild, hpure⟩ := Panicking.bind_eq_ok.mp h
        simp only [Panicking.pure_eq, Except.ok.injEq, Prod.mk.injEq] at hpure
        obtain ⟨rfl, rfl⟩ := hpure
        have hsub := ih child child' b hchild
        have herase := childrenSize_erase_add_le children c child hget
        simp only [totalSize_directory, childrenSize_insert]
        omega
      · simp at h

/-- `MemoryFilesystem`: the root and `max_size`. -/
structure MemoryFilesystem where
  root : FsNode
  maxSize : Nat
  deriving Repr

/-- `FsStats`. -/
structure FsStats where
  blockSize : Nat
  totalBlocks : Nat
  freeBlocks : Nat
  deriving DecidableEq, Repr

namespace MemoryFilesystem

variable (fs : MemoryFilesystem)

/-- `with_max_size`: an empty root directory. -/
def withMaxSize (maxBytes : Nat) : MemoryFilesystem := ⟨.directory [], maxBytes⟩

/-- `MemoryFilesystem::new`: no limit. -/
def new : MemoryFilesystem := withMaxSize 0

/-- `navigate_parent` on `path`, with `f` run on the parent's children and
the file name: an empty file name is `InvalidPath`. -/
def atParent {α : Type} (path : Path) (f : Children → Path → Except FsError (Children × α)) :
    Except FsError (MemoryFilesystem × α) := do
  let (parentPath, filename) := splitPath path
  if filename = [] then .error .invalidPath else
  let (root, a) ← fs.root.modifyAt (fun cs => f cs filename) (parentComponents parentPath)
  pure ({ fs with root }, a)

/-- What a successful `navigate_parent` did: the file name is not empty,
and the edit ran on the parent's children. -/
theorem atParent_eq_ok {α : Type} {path : Path} {f : Children → Path → Except FsError (Children × α)}
    {fs' : MemoryFilesystem} {a : α} (h : fs.atParent path f = .ok (fs', a)) :
    ∃ root, fs.root.modifyAt (fun cs => f cs (splitPath path).2)
        (parentComponents (splitPath path).1) = .ok (root, a) ∧ fs' = { fs with root } := by
  unfold atParent at h
  rcases hsp : splitPath path with ⟨parentPath, filename⟩
  rw [hsp] at h
  dsimp only at h
  split_ifs at h
  obtain ⟨⟨root, b⟩, hroot, hpure⟩ := Panicking.bind_eq_ok.mp h
  simp only [Panicking.pure_eq, Except.ok.injEq, Prod.mk.injEq] at hpure
  obtain ⟨rfl, rfl⟩ := hpure
  exact ⟨root, hroot, rfl⟩

theorem maxSize_of_atParent {α : Type} {path : Path}
    {f : Children → Path → Except FsError (Children × α)} {fs' : MemoryFilesystem} {a : α}
    (h : fs.atParent path f = .ok (fs', a)) : fs'.maxSize = fs.maxSize := by
  obtain ⟨root, -, rfl⟩ := fs.atParent_eq_ok h
  rfl

theorem totalSize_of_atParent {α : Type} {path : Path}
    {f : Children → Path → Except FsError (Children × α)} {d e : α → Nat}
    (hf : ∀ name, Grows (fun cs => f cs name) d e) {fs' : MemoryFilesystem} {a : α}
    (h : fs.atParent path f = .ok (fs', a)) :
    fs'.root.totalSize + d a ≤ fs.root.totalSize + e a := by
  obtain ⟨root, hroot, rfl⟩ := fs.atParent_eq_ok h
  exact FsNode.totalSize_modifyAt (hf _) _ _ _ _ hroot

/-- The quota check of `write_file` and `append_file`. -/
def checkQuota (len : Nat) : Except FsError Unit :=
  if fs.maxSize > 0 ∧ fs.root.totalSize + len > fs.maxSize then .error .noSpace else .ok ()

/-- `read_file`. -/
def readFile (path : Path) : Except FsError (List UInt8) := do
  match ← fs.root.navigate (pathComponents path) with
  | .file data => pure data
  | .directory _ => .error .notAFile

/-- `read_dir`. -/
def readDir (path : Path) : Except FsError (List DirEntry) := do
  match ← fs.root.navigate (pathComponents path) with
  | .directory children =>
    pure (children.map fun (name, child) =>
      match child with
      | .file data => ⟨Path.utf8 name, false, false, data.length⟩
      | .directory _ => ⟨Path.utf8 name, true, false, 0⟩)
  | .file _ => .error .notADirectory

/-- `exists`. -/
def «exists» (path : Path) : Bool :=
  match fs.root.navigate (pathComponents path) with
  | .ok _ => true
  | .error _ => false

/-- `write_file`: the quota against the whole tree, then the new file over
whatever had the name. -/
def writeFile (path : Path) (data : List UInt8) : Except FsError MemoryFilesystem := do
  fs.checkQuota data.length
  let (fs, ()) ← fs.atParent path fun parent filename => pure (parent.insert filename (.file data), ())
  pure fs

/-- The write of `write_at` into a file's bytes: zero-filled up to `offset`
when the write ends past the end (`resize`), then `data` over
`[offset, offset + data.len())`. -/
def writeBytesAt (fileData : List UInt8) (offset : Nat) (data : List UInt8) : List UInt8 :=
  let fileData := if offset + data.length > fileData.length then
      fileData ++ List.replicate (offset + data.length - fileData.length) 0
    else fileData
  fileData.take offset ++ data ++ fileData.drop (offset + data.length)

/-- `write_at`: no quota check. -/
def writeAt (path : Path) (offset : Nat) (data : List UInt8) :
    Except FsError (Nat × MemoryFilesystem) :=
  if data = [] then .ok (0, fs) else do
  let (fs, n) ← fs.atParent path fun parent filename =>
    match parent.get filename with
    | some (.file fileData) =>
      pure (parent.insert filename (.file (writeBytesAt fileData offset data)), data.length)
    | some (.directory _) => .error .notAFile
    | none => .error .notFound
  pure (n, fs)

/-- `append_file`: the quota against the whole tree, then the bytes at the
end of the file, or a new file. -/
def appendFile (path : Path) (data : List UInt8) : Except FsError MemoryFilesystem := do
  fs.checkQuota data.length
  let (fs, ()) ← fs.atParent path fun parent filename =>
    match parent.get filename with
    | some (.file existing) => pure (parent.insert filename (.file (existing ++ data)), ())
    | some (.directory _) => .error .notAFile
    | none => pure (parent.insert filename (.file data), ())
  pure fs

/-- `create_dir`. -/
def createDir (path : Path) : Except FsError MemoryFilesystem := do
  let (fs, ()) ← fs.atParent path fun parent dirname =>
    if parent.containsKey dirname then .error .alreadyExists
    else pure (parent.insert dirname (.directory []), ())
  pure fs

/-- `remove_file`. -/
def removeFile (path : Path) : Except FsError MemoryFilesystem := do
  let (fs, ()) ← fs.atParent path fun parent filename =>
    match parent.get filename with
    | some (.file _) => pure (parent.erase filename, ())
    | some (.directory _) => .error .notAFile
    | none => .error .notFound
  pure fs

/-- `remove_dir`. -/
def removeDir (path : Path) : Except FsError MemoryFilesystem := do
  let (fs, ()) ← fs.atParent path fun parent dirname =>
    match parent.get dirname with
    | some (.directory children) =>
      if children ≠ [] then .error .directoryNotEmpty else pure (parent.erase dirname, ())
    | some (.file _) => .error .notADirectory
    | none => .error .notFound
  pure fs

/-- `rename`: take the node out of the old parent, then put it into the new
one; when the new parent cannot be reached or already has the name, the
node goes back under its old name and the error is returned. It is the one
mutator that changes the tree before it can fail, so its result carries the
tree on both branches. -/
def rename (oldPath newPath : Path) : EStateM.Result FsError MemoryFilesystem Unit :=
  match fs.atParent oldPath fun parent oldFilename =>
      match parent.get oldFilename with
      | some node => pure (parent.erase oldFilename, (oldFilename, node))
      | none => .error .notFound with
  | .error e => .error e fs
  | .ok (fs1, (oldFilename, node)) =>
    match fs1.atParent newPath fun parent newFilename =>
        if parent.containsKey newFilename then .error .alreadyExists
        else pure (parent.insert newFilename node, ()) with
    | .ok (fs2, ()) => .ok () fs2
    | .error e =>
      -- the retry walks to the old parent again; its own error, if any, is returned
      match fs1.atParent oldPath fun parent _ => pure (parent.insert oldFilename node, ()) with
      | .ok (fs2, ()) => .error e fs2
      | .error e' => .error e' fs1

/-- `stats`: with no limit, 64 MiB of headroom over what is used. The free
space `total - used` is a `u64` subtraction, which wraps. -/
def stats : FsStats :=
  let used := fs.root.totalSize
  let total := if fs.maxSize > 0 then fs.maxSize else used + 64 * 1024 * 1024
  ⟨4096, total / 4096, (total + (2 ^ 64 - used % 2 ^ 64)) % 2 ^ 64 / 4096⟩

/-! ## The size limit -/

/-- The tree keeps within `max_size` whenever there is one. -/
def WithinQuota : Prop := 0 < fs.maxSize → fs.root.totalSize ≤ fs.maxSize

/-- `fs'` has the limit of `fs` and no more bytes. -/
structure NoGrowth (fs' : MemoryFilesystem) : Prop where
  maxSize_eq : fs'.maxSize = fs.maxSize
  totalSize_le : fs'.root.totalSize ≤ fs.root.totalSize

theorem NoGrowth.refl : fs.NoGrowth fs := ⟨rfl, le_refl _⟩

theorem WithinQuota.of_noGrowth {fs fs' : MemoryFilesystem} (h : fs.WithinQuota)
    (hg : fs.NoGrowth fs') : fs'.WithinQuota := by
  intro hpos
  rw [hg.maxSize_eq] at hpos ⊢
  exact le_trans hg.totalSize_le (h hpos)

theorem withinQuota_withMaxSize (maxBytes : Nat) : (withMaxSize maxBytes).WithinQuota := by
  intro _
  simp [withMaxSize]

/-- When `max_size` (a `u64`) is set and kept, `stats` subtracts without
wrapping. -/
theorem stats_freeBlocks (h : fs.WithinQuota) (hpos : 0 < fs.maxSize) (hmax : fs.maxSize < 2 ^ 64) :
    fs.stats.freeBlocks = (fs.maxSize - fs.root.totalSize) / 4096 := by
  have hle := h hpos
  have hused : fs.root.totalSize % 2 ^ 64 = fs.root.totalSize := Nat.mod_eq_of_lt (by omega)
  have hwrap : (fs.maxSize + (2 ^ 64 - fs.root.totalSize)) % 2 ^ 64 = fs.maxSize - fs.root.totalSize := by
    rw [show fs.maxSize + (2 ^ 64 - fs.root.totalSize) = (fs.maxSize - fs.root.totalSize) + 2 ^ 64 by omega,
      Nat.add_mod_right, Nat.mod_eq_of_lt (by omega)]
  simp only [stats, hpos, if_true, hused, hwrap]

/-- What a successful mutator that writes only through `navigate_parent` did. -/
theorem atParent_of_bind_eq_ok {path : Path} {f : Children → Path → Except FsError (Children × Unit)}
    {fs' : MemoryFilesystem} (h : (do let (fs, ()) ← fs.atParent path f; pure fs) = .ok fs') :
    fs.atParent path f = .ok (fs', ()) := by
  obtain ⟨⟨fs1, ⟨⟩⟩, hat, hpure⟩ := Panicking.bind_eq_ok.mp h
  simp only [Panicking.pure_eq, Except.ok.injEq] at hpure
  rwa [← hpure]

/-- The same for `write_file` and `append_file`, which check the quota first. -/
theorem atParent_of_checkQuota_bind_eq_ok {path : Path} {len : Nat}
    {f : Children → Path → Except FsError (Children × Unit)} {fs' : MemoryFilesystem}
    (h : (do fs.checkQuota len; let (fs, ()) ← fs.atParent path f; pure fs) = .ok fs') :
    fs.checkQuota len = .ok () ∧ fs.atParent path f = .ok (fs', ()) := by
  obtain ⟨⟨⟩, hq, h⟩ := Panicking.bind_eq_ok.mp h
  exact ⟨hq, fs.atParent_of_bind_eq_ok h⟩

/-- A write that passed the quota check and added at most `len` bytes ends
within the limit, whatever the tree held before. -/
theorem withinQuota_of_checkQuota {len : Nat} {fs' : MemoryFilesystem} {u : Unit}
    (hq : fs.checkQuota len = .ok u) (hmax : fs'.maxSize = fs.maxSize)
    (hsize : fs'.root.totalSize ≤ fs.root.totalSize + len) : fs'.WithinQuota := by
  unfold checkQuota at hq
  split_ifs at hq with hc
  intro hpos
  rw [hmax] at hpos ⊢
  omega

theorem writeFile_withinQuota {path : Path} {data : List UInt8} {fs' : MemoryFilesystem}
    (h : fs.writeFile path data = .ok fs') : fs'.WithinQuota := by
  obtain ⟨hq, hat⟩ := fs.atParent_of_checkQuota_bind_eq_ok h
  -- the new file replaces whatever had the name
  have hgrow : ∀ name, Grows (fun cs => pure (cs.insert name (.file data), ()))
      (fun _ => 0) (fun _ => data.length) := by
    intro name cs cs' a hcs
    simp only [Panicking.pure_eq, Except.ok.injEq, Prod.mk.injEq] at hcs
    obtain ⟨rfl, -⟩ := hcs
    simpa [Nat.add_comm] using childrenSize_insert_le cs name (.file data)
  exact fs.withinQuota_of_checkQuota hq (fs.maxSize_of_atParent hat)
    (fs.totalSize_of_atParent hgrow hat)

theorem appendFile_withinQuota {path : Path} {data : List UInt8} {fs' : MemoryFilesystem}
    (h : fs.appendFile path data = .ok fs') : fs'.WithinQuota := by
  obtain ⟨hq, hat⟩ := fs.atParent_of_checkQuota_bind_eq_ok h
  -- the bytes go at the end of the file `get` finds, or into a new one
  have hgrow : ∀ name, Grows (fun cs => match cs.get name with
      | some (.file existing) => pure (cs.insert name (.file (existing ++ data)), ())
      | some (.directory _) => .error .notAFile
      | none => pure (cs.insert name (.file data), ()))
      (fun _ => 0) (fun _ => data.length) := by
    intro name cs cs' a hcs
    dsimp only at hcs
    split at hcs
    · rename_i existing hget
      simp only [Panicking.pure_eq, Except.ok.injEq, Prod.mk.injEq] at hcs
      obtain ⟨rfl, -⟩ := hcs
      have := childrenSize_erase_add_le cs name _ hget
      simp only [childrenSize_insert, totalSize_file, List.length_append] at this ⊢
      omega
    · cases hcs
    · simp only [Panicking.pure_eq, Except.ok.injEq, Prod.mk.injEq] at hcs
      obtain ⟨rfl, -⟩ := hcs
      simpa [Nat.add_comm] using childrenSize_insert_le cs name (.file data)
  exact fs.withinQuota_of_checkQuota hq (fs.maxSize_of_atParent hat)
    (fs.totalSize_of_atParent hgrow hat)

theorem noGrowth_of_atParent {α : Type} {path : Path}
    {f : Children → Path → Except FsError (Children × α)}
    (hf : ∀ name, Grows (fun cs => f cs name) (fun _ => 0) (fun _ => 0)) {fs' : MemoryFilesystem}
    {a : α} (h : fs.atParent path f = .ok (fs', a)) : fs.NoGrowth fs' :=
  ⟨fs.maxSize_of_atParent h, by simpa using fs.totalSize_of_atParent hf h⟩

theorem createDir_noGrowth {path : Path} {fs' : MemoryFilesystem}
    (h : fs.createDir path = .ok fs') : fs.NoGrowth fs' := by
  refine fs.noGrowth_of_atParent (fun name cs cs' a hcs => ?_) (fs.atParent_of_bind_eq_ok h)
  dsimp only at hcs
  split_ifs at hcs
  simp only [Panicking.pure_eq, Except.ok.injEq, Prod.mk.injEq] at hcs
  obtain ⟨rfl, -⟩ := hcs
  simpa using childrenSize_insert_le cs name (.directory [])

theorem removeFile_noGrowth {path : Path} {fs' : MemoryFilesystem}
    (h : fs.removeFile path = .ok fs') : fs.NoGrowth fs' := by
  refine fs.noGrowth_of_atParent (fun name cs cs' a hcs => ?_) (fs.atParent_of_bind_eq_ok h)
  dsimp only at hcs
  split at hcs
  · simp only [Panicking.pure_eq, Except.ok.injEq, Prod.mk.injEq] at hcs
    obtain ⟨rfl, -⟩ := hcs
    simpa using childrenSize_erase_le cs name
  · cases hcs
  · cases hcs

theorem removeDir_noGrowth {path : Path} {fs' : MemoryFilesystem}
    (h : fs.removeDir path = .ok fs') : fs.NoGrowth fs' := by
  refine fs.noGrowth_of_atParent (fun name cs cs' a hcs => ?_) (fs.atParent_of_bind_eq_ok h)
  dsimp only at hcs
  split at hcs
  · split_ifs at hcs
    simp only [Panicking.pure_eq, Except.ok.injEq, Prod.mk.injEq] at hcs
    obtain ⟨rfl, -⟩ := hcs
    simpa using childrenSize_erase_le cs name
  · cases hcs
  · cases hcs

/-- The tree `rename` leaves, on either branch. -/
def renameState (oldPath newPath : Path) : MemoryFilesystem :=
  match fs.rename oldPath newPath with
  | .ok _ fs' => fs'
  | .error _ fs' => fs'

/-- `rename` never adds bytes: what it takes out of the old parent is at
least the node it puts into the new one, or back into the old. -/
theorem rename_noGrowth (oldPath newPath : Path) : fs.NoGrowth (fs.renameState oldPath newPath) := by
  unfold renameState
  generalize hr : fs.rename oldPath newPath = r
  unfold rename at hr
  split at hr
  · subst hr
    exact NoGrowth.refl fs
  · rename_i fs1 oldFilename node hat1
    -- taking the node out frees at least its bytes
    have htake : ∀ name, Grows (fun cs => match cs.get name with
        | some node => pure (cs.erase name, (name, node))
        | none => .error .notFound) (fun a => a.2.totalSize) (fun _ => 0) := by
      intro name cs cs' a hcs
      dsimp only at hcs
      split at hcs
      · rename_i v hget
        simp only [Panicking.pure_eq, Except.ok.injEq, Prod.mk.injEq] at hcs
        obtain ⟨rfl, rfl⟩ := hcs
        simpa using childrenSize_erase_add_le cs name v hget
      · cases hcs
    have h1 : fs1.root.totalSize + node.totalSize ≤ fs.root.totalSize := by
      simpa using fs.totalSize_of_atParent htake hat1
    have hmax1 := fs.maxSize_of_atParent hat1
    -- putting it into the new parent, or back, adds at most its bytes
    have hmove : ∀ name, Grows (fun cs => if cs.containsKey name = true then .error .alreadyExists
        else pure (cs.insert name node, ())) (fun _ => 0) (fun _ => node.totalSize) := by
      intro name cs cs' a hcs
      dsimp only at hcs
      split_ifs at hcs
      simp only [Panicking.pure_eq, Except.ok.injEq, Prod.mk.injEq] at hcs
      obtain ⟨rfl, -⟩ := hcs
      simpa [Nat.add_comm] using childrenSize_insert_le cs name node
    have hback : ∀ _name : Path, Grows (fun cs => pure (cs.insert oldFilename node, ())) (fun _ => 0)
        (fun _ => node.totalSize) := by
      intro _ cs cs' a hcs
      simp only [Panicking.pure_eq, Except.ok.injEq, Prod.mk.injEq] at hcs
      obtain ⟨rfl, -⟩ := hcs
      simpa [Nat.add_comm] using childrenSize_insert_le cs oldFilename node
    split at hr
    · rename_i fs2 hat2
      subst hr
      have h2 := fs1.totalSize_of_atParent hmove hat2
      exact ⟨(fs1.maxSize_of_atParent hat2).trans hmax1, by simp at h2 ⊢; omega⟩
    · split at hr
      · rename_i fs2 hat3
        subst hr
        have h3 := fs1.totalSize_of_atParent hback hat3
        exact ⟨(fs1.maxSize_of_atParent hat3).trans hmax1, by simp at h3 ⊢; omega⟩
      · subst hr
        exact ⟨hmax1, by simp at h1 ⊢; omega⟩

/-! ## Runs -/

/-- A call of a mutator of the `Filesystem` trait. -/
inductive Op where
  | writeFile (path : Path) (data : List UInt8)
  | writeAt (path : Path) (offset : Nat) (data : List UInt8)
  | appendFile (path : Path) (data : List UInt8)
  | createDir (path : Path)
  | removeFile (path : Path)
  | removeDir (path : Path)
  | rename (oldPath newPath : Path)
  deriving Repr

/-- The tree after a call that fails before it writes, or succeeds. -/
def afterCall : Except FsError MemoryFilesystem → MemoryFilesystem
  | .ok fs' => fs'
  | .error _ => fs

/-- The tree after one call, whatever it returns. -/
def Op.apply : Op → MemoryFilesystem
  | .writeFile path data => fs.afterCall (fs.writeFile path data)
  | .writeAt path offset data => fs.afterCall ((fs.writeAt path offset data).map Prod.snd)
  | .appendFile path data => fs.afterCall (fs.appendFile path data)
  | .createDir path => fs.afterCall (fs.createDir path)
  | .removeFile path => fs.afterCall (fs.removeFile path)
  | .removeDir path => fs.afterCall (fs.removeDir path)
  | .rename oldPath newPath => fs.renameState oldPath newPath

/-- The tree after a sequence of calls. -/
def run (ops : List Op) : MemoryFilesystem := ops.foldl (fun fs op => Op.apply fs op) fs

def Op.isWriteAt : Op → Bool
  | .writeAt .. => true
  | _ => false

theorem WithinQuota.afterCall {fs : MemoryFilesystem} (h : fs.WithinQuota)
    {r : Except FsError MemoryFilesystem} (hr : ∀ fs', r = .ok fs' → fs'.WithinQuota) :
    (fs.afterCall r).WithinQuota := by
  cases r with
  | error => exact h
  | ok fs' => exact hr fs' rfl

/-- Each call but `write_at` keeps the tree within the limit. -/
theorem WithinQuota.apply {fs : MemoryFilesystem} (h : fs.WithinQuota) (op : Op)
    (hop : op.isWriteAt = false) : (Op.apply fs op).WithinQuota := by
  cases op with
  | writeFile path data => exact h.afterCall fun _ => fs.writeFile_withinQuota
  | writeAt => simp [Op.isWriteAt] at hop
  | appendFile path data => exact h.afterCall fun _ => fs.appendFile_withinQuota
  | createDir path => exact h.afterCall fun _ hr => h.of_noGrowth (fs.createDir_noGrowth hr)
  | removeFile path => exact h.afterCall fun _ hr => h.of_noGrowth (fs.removeFile_noGrowth hr)
  | removeDir path => exact h.afterCall fun _ hr => h.of_noGrowth (fs.removeDir_noGrowth hr)
  | rename oldPath newPath => exact h.of_noGrowth (fs.rename_noGrowth oldPath newPath)

theorem WithinQuota.run {fs : MemoryFilesystem} (h : fs.WithinQuota) (ops : List Op)
    (hops : ∀ op ∈ ops, op.isWriteAt = false) : (fs.run ops).WithinQuota := by
  induction ops generalizing fs with
  | nil => exact h
  | cons op ops ih =>
    exact ih (h.apply op (hops op (by simp))) (fun op' hop' => hops op' (by simp [hop']))

theorem maxSize_afterCall {r : Except FsError MemoryFilesystem}
    (hr : ∀ fs', r = .ok fs' → fs'.maxSize = fs.maxSize) : (fs.afterCall r).maxSize = fs.maxSize := by
  cases r with
  | error => rfl
  | ok fs' => exact hr fs' rfl

theorem maxSize_writeAt {path : Path} {offset n : Nat} {data : List UInt8} {fs' : MemoryFilesystem}
    (h : fs.writeAt path offset data = .ok (n, fs')) : fs'.maxSize = fs.maxSize := by
  unfold writeAt at h
  split_ifs at h
  · cases h
    rfl
  · obtain ⟨⟨fs1, m⟩, hat, hpure⟩ := Panicking.bind_eq_ok.mp h
    simp only [Panicking.pure_eq, Except.ok.injEq, Prod.mk.injEq] at hpure
    obtain ⟨rfl, rfl⟩ := hpure
    exact fs.maxSize_of_atParent hat

/-- No call changes `max_size`. -/
theorem maxSize_apply (op : Op) : (Op.apply fs op).maxSize = fs.maxSize := by
  cases op with
  | writeFile path data =>
    exact fs.maxSize_afterCall fun _ hr => fs.maxSize_of_atParent (fs.atParent_of_checkQuota_bind_eq_ok hr).2
  | writeAt path offset data =>
    refine fs.maxSize_afterCall fun fs' hr => ?_
    cases hw : fs.writeAt path offset data with
    | error => simp [hw, Except.map] at hr
    | ok p =>
      obtain ⟨n, fs1⟩ := p
      simp only [hw, Except.map, Except.ok.injEq] at hr
      subst hr
      exact fs.maxSize_writeAt hw
  | appendFile path data =>
    exact fs.maxSize_afterCall fun _ hr => fs.maxSize_of_atParent (fs.atParent_of_checkQuota_bind_eq_ok hr).2
  | createDir path => exact fs.maxSize_afterCall fun _ hr => (fs.createDir_noGrowth hr).maxSize_eq
  | removeFile path => exact fs.maxSize_afterCall fun _ hr => (fs.removeFile_noGrowth hr).maxSize_eq
  | removeDir path => exact fs.maxSize_afterCall fun _ hr => (fs.removeDir_noGrowth hr).maxSize_eq
  | rename oldPath newPath => exact (fs.rename_noGrowth oldPath newPath).maxSize_eq

theorem maxSize_run (ops : List Op) : (fs.run ops).maxSize = fs.maxSize := by
  induction ops generalizing fs with
  | nil => rfl
  | cons op ops ih => exact (ih _).trans (fs.maxSize_apply op)

/-- From an empty filesystem with a limit, the calls other than `write_at`
keep the files within the limit, and `stats` then reports the free space
without wrapping. -/
theorem run_withinQuota (maxBytes : Nat) (hpos : 0 < maxBytes) (hmax : maxBytes < 2 ^ 64)
    (ops : List Op) (hops : ∀ op ∈ ops, op.isWriteAt = false) :
    let fs := (withMaxSize maxBytes).run ops
    fs.root.totalSize ≤ maxBytes ∧ fs.stats.freeBlocks = (maxBytes - fs.root.totalSize) / 4096 := by
  intro fs
  have hq : fs.WithinQuota := (withinQuota_withMaxSize maxBytes).run ops hops
  have hsize : fs.maxSize = maxBytes := (withMaxSize maxBytes).maxSize_run ops
  rw [← hsize] at hpos hmax ⊢
  exact ⟨hq hpos, fs.stats_freeBlocks hq hpos hmax⟩

theorem run_withinQuota_on_four_calls :
    0 < 10 ∧ 10 < 2 ^ 64 ∧
    (∀ op ∈ [Op.createDir ['/', 'd'], .writeFile ['/', 'd', '/', 's'] [104, 105],
      .writeFile ['/', 'd', '/', 'b'] (List.replicate 17 0), .rename ['/', 'd'] ['/', 'e']],
      op.isWriteAt = false) ∧
    let fs := (withMaxSize 10).run [.createDir ['/', 'd'], .writeFile ['/', 'd', '/', 's'] [104, 105],
      .writeFile ['/', 'd', '/', 'b'] (List.replicate 17 0), .rename ['/', 'd'] ['/', 'e']]
    fs.root.totalSize ≤ 10 ∧ fs.stats.freeBlocks = (10 - fs.root.totalSize) / 4096 :=
  ⟨by decide, by decide, by decide, run_withinQuota 10 (by decide) (by decide) _ (by decide)⟩

/-- `write_at` past the end of a file zero-fills up to its offset with no
check of the limit: a file of 9 bytes in a filesystem of 8, after which
`stats` wraps its free space around to nearly `2^64` bytes. -/
theorem writeAt_past_max_size :
    (let fs := (withMaxSize 8).run [.writeFile ['/', 'f'] [], .writeAt ['/', 'f'] 8 [1]]
     fs.maxSize = 8 ∧ fs.root.totalSize = 9 ∧ fs.stats.freeBlocks = (2 ^ 64 - 1) / 4096) := by
  decide

end MemoryFilesystem

end Akuma.Vfs
