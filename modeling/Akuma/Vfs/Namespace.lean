import Akuma.Vfs.Basic

/-!
# Mount namespaces and the symlink table

How a path that a process names reaches a filesystem (`src/vfs/mod.rs`):
the mount tables of `akuma-vfs/src/mount.rs` and
`akuma-isolation/src/mount.rs`, the `SubdirFs` that
`create_box_namespace` mounts at `/` of a box, `with_fs` with its order of
resolution, and the in-memory `SYMLINKS` table that stands in for
filesystems without symlinks.

A filesystem is the record of the `Filesystem` methods these calls
dispatch, as computations over the state `σ` of all mounted filesystems;
the model keeps the state an operation leaves behind when it fails, as the
device does. Which filesystem a path reaches depends only on the mount
tables, never on `σ`.

The results come in two parts. A box whose namespace holds only its
`SubdirFs` is confined at the level of paths: every call hands the
underlying filesystem `R` followed by canonical components, none of them
`..` (`withFs_box_namespace`, `pathComponents_fullPath`). The `SYMLINKS`
table, however, is one table for every namespace, keyed by the path as the
caller named it: a box that creates a symlink under a mount that cannot
hold one writes it into the table the host reads.
-/

namespace Akuma.Vfs

variable {σ α : Type}

/-! ## Filesystems and mount tables -/

/-- The methods of the `Filesystem` trait that the modelled VFS calls
dispatch; `pathExists` is `exists`. -/
structure Filesystem (σ : Type) where
  name : Path
  pathExists : Path → EStateM FsError σ Bool
  removeFile : Path → EStateM FsError σ Unit
  rename : Path → Path → EStateM FsError σ Unit
  createSymlink : Path → Path → EStateM FsError σ Unit
  readSymlink : Path → EStateM FsError σ Path

/-- A mount: its path and the filesystem mounted there. -/
structure MountEntry (σ : Type) where
  path : Path
  fs : Filesystem σ

/-- `MAX_MOUNTS` of the global table. -/
def maxMounts : Nat := 8

/-- `MAX_NS_MOUNTS` of a mount namespace. -/
def maxNsMounts : Nat := 16

/-- `MountTable::mount` and `MountNamespace::mount`, with their limit: the
entry is pushed and the table sorted by path length, longest first. The
sort is stable, as `sort_by` is. -/
def mountIn (limit : Nat) (mounts : List (MountEntry σ)) (path : Path) (fs : Filesystem σ) :
    Except FsError (List (MountEntry σ)) :=
  if mounts.length ≥ limit then .error .noSpace
  else if mounts.any (·.path == path) then .error .alreadyExists
  else .ok ((mounts ++ [MountEntry.mk path fs]).insertionSort fun a b => b.path.length ≤ a.path.length)

/-- `MountTable::unmount` and `MountNamespace::unmount`: the first entry
with the path is removed. -/
def unmountIn (mounts : List (MountEntry σ)) (path : Path) : Except FsError (List (MountEntry σ)) :=
  match mounts.findIdx? (·.path == path) with
  | some idx => .ok (mounts.eraseIdx idx)
  | none => .error .notFound

/-- One mount of the loop of `resolve_arc` on the normalized path. -/
def resolveEntry (normalized : Path) (m : MountEntry σ) : Option (Filesystem σ × Path) :=
  if m.path = ['/'] then some (m.fs, normalized)
  else if normalized = m.path then some (m.fs, ['/'])
  else if m.path.isPrefixOf normalized then
    let rest := normalized.drop m.path.length
    if rest = [] then some (m.fs, ['/'])
    else if rest.head? = some '/' then some (m.fs, rest)
    else none
  else none

/-- `resolve_arc` of both mount tables: the first mount, longest path first,
that the path lies under, and the path relative to it. -/
def resolveArc (mounts : List (MountEntry σ)) (path : Path) : Option (Filesystem σ × Path) :=
  mounts.findSome? (resolveEntry (normalizePath path))

/-- `MountTable::resolve`: the loop of `resolve_arc`, which hands back
borrowed slices where `resolve_arc` copies them. -/
def resolve (mounts : List (MountEntry σ)) (path : Path) : Option (Filesystem σ × Path) :=
  mounts.findSome? (resolveEntry (normalizePath path))

/-- `get_fs("/")` of the global table. -/
def rootFs (mounts : List (MountEntry σ)) : Option (Filesystem σ) :=
  (mounts.find? (·.path == ['/'])).map (·.fs)

/-! ## `SubdirFs` and procfs -/

/-- The `full_path!` of `SubdirFs`: the prefix, then the path unless it is
`/`. -/
def fullPath (pre path : Path) : Path :=
  if path = ['/'] then pre else pre ++ path

/-- `SubdirFs::new(inner, prefix)`: every path is the prefix, trailing
slashes trimmed, followed by the path. -/
def subdirFs (inner : Filesystem σ) (pre : Path) : Filesystem σ where
  name := "subdirfs".toList
  pathExists p := inner.pathExists (fullPath (trimEnd pre) p)
  removeFile p := inner.removeFile (fullPath (trimEnd pre) p)
  rename o n := inner.rename (fullPath (trimEnd pre) o) (fullPath (trimEnd pre) n)
  createSymlink l t := inner.createSymlink (fullPath (trimEnd pre) l) t
  readSymlink p := inner.readSymlink (fullPath (trimEnd pre) p)

/-- `str::parse::<u32>()`: an optional `+`, then decimal digits. -/
def parseU32 (s : Path) : Option Nat :=
  let digits := if s.head? = some '+' then s.tail else s
  if digits ≠ [] ∧ digits.all Char.isDigit then
    let n := digits.foldl (fun acc c => acc * 10 + (c.toNat - '0'.toNat)) 0
    if n < 2 ^ 32 then some n else none
  else none

/-- The `<pid>/fd/<n>` case of procfs `read_symlink`; `fdPath pid n` is the
path of the file that descriptor `n` of process `pid` holds, if it holds a
file. -/
def procFdLink (fdPath : Nat → Nat → Option Path) (path : Path) : Except FsError Path :=
  match splitSlash path with
  | [pid, ['f', 'd'], fd] =>
    match parseU32 pid, parseU32 fd with
    | some pid, some fd => (fdPath pid fd).elim (.error .notFound) .ok
    | _, _ => .error .notFound
  | _ => .error .notFound

/-- `ProcFilesystem::read_symlink`. `self/` becomes the current pid; the
source then calls itself on `<pid>/…`, which has no `self/` prefix, so the
call is unfolded once here. -/
def procReadSymlink (currentPid : Option Nat) (fdPath : Nat → Nat → Option Path) (path : Path) :
    Except FsError Path :=
  let path := trimStart path
  if "self/".toList.isPrefixOf path then
    match currentPid with
    | some pid => procFdLink fdPath ((toString pid).toList ++ '/' :: path.drop 5)
    | none => .error .notFound
  else procFdLink fdPath path

/-- `ProcFilesystem`, for the methods modelled: nothing can be removed,
renamed or linked (the trait's defaults), symlinks are the fd links of
processes. Which paths exist depends on the process table and is the
parameter `procExists`. -/
def procFs (currentPid : Option Nat) (fdPath : Nat → Nat → Option Path)
    (procExists : Path → Bool) : Filesystem σ where
  name := "proc".toList
  pathExists p := pure (procExists p)
  removeFile _ := throw .notSupported
  rename _ _ := throw .notSupported
  createSymlink _ _ := throw .notSupported
  readSymlink p := match procReadSymlink currentPid fdPath p with
    | .ok t => pure t
    | .error e => throw e

/-! ## Namespaces and `with_fs` -/

/-- `create_box_namespace`: a `SubdirFs` of the global root filesystem at
`/`, unless the box's root is `/` itself. -/
def createBoxNamespace (root : Option (Filesystem σ)) (rootDir : Path) : List (MountEntry σ) :=
  match root with
  | some fs => if rootDir ≠ ['/'] then [⟨['/'], subdirFs fs rootDir⟩] else []
  | none => []

/-- What `with_fs` reads of the caller: the spawn-namespace override of its
thread, and the current process, with its working directory and the mount
table of its namespace. -/
structure Caller (σ : Type) where
  spawnNamespace : Option (List (MountEntry σ))
  process : Option (Path × List (MountEntry σ))

/-- `normalize_path_owned` of `src/vfs/mod.rs`: trailing slashes go, a
leading one is added. -/
def normalizePathOwned (path : Path) : Path :=
  let trimmed := trimEnd path
  if trimmed = [] then ['/']
  else if trimmed.head? ≠ some '/' then '/' :: trimmed
  else trimmed

/-- The resolution of `with_fs`: the spawn override, then the process
namespace, then the global table. -/
def resolveFor (mounts : List (MountEntry σ)) (caller : Caller σ) (path : Path) :
    Except FsError (Filesystem σ × Path) :=
  let cwd := (caller.process.map (·.1)).getD ['/']
  match caller.spawnNamespace.bind (resolveArc · (resolvePath cwd path)) with
  | some r => .ok r
  | none =>
    match caller.process with
    | some (cwd, ns) =>
      let absolute := resolvePath cwd path
      match resolveArc ns absolute with
      | some r => .ok r
      | none => (resolveArc mounts absolute).elim (.error .notFound) .ok
    | none => (resolveArc mounts (normalizePathOwned path)).elim (.error .notFound) .ok

/-- The VFS state: the state of the mounted filesystems, the global mount
table and the `SYMLINKS` table, a map from canonical link paths to
targets (at most one entry per key). -/
structure VfsState (σ : Type) where
  fs : σ
  mounts : List (MountEntry σ)
  symlinks : List (Path × Path)

/-- An operation of the mounted filesystems, run on their part of the VFS
state. -/
def onFs (m : EStateM FsError σ α) : EStateM FsError (VfsState σ) α := fun v =>
  match m v.fs with
  | .ok a s => .ok a { v with fs := s }
  | .error e s => .error e { v with fs := s }

/-- `with_fs`: the operation `f` on the filesystem `path` resolves to, with
the path relative to its mount. -/
def withFs (caller : Caller σ) (path : Path) (f : Filesystem σ → Path → EStateM FsError σ α) :
    EStateM FsError (VfsState σ) α := do
  let v ← get
  match resolveFor v.mounts caller path with
  | .ok (fs, rel) => onFs (f fs rel)
  | .error e => throw e

/-! ## Symlinks -/

/-- `BTreeMap::insert` on the symlink table. -/
def symlinkInsert (link target : Path) (t : List (Path × Path)) : List (Path × Path) :=
  (link, target) :: t.filter (·.1 ≠ link)

/-- `vfs::create_symlink`: on the filesystem, or in the table when the
filesystem does not support symlinks. -/
def createSymlink (caller : Caller σ) (linkPath target : Path) : EStateM FsError (VfsState σ) Unit :=
  tryCatch (withFs caller linkPath fun fs rel => fs.createSymlink rel target) fun
    | .notSupported => modify fun v =>
        { v with symlinks := symlinkInsert (canonicalizePath linkPath) target v.symlinks }
    | e => throw e

/-- `vfs::read_symlink`: the filesystem's answer, or else the table's. -/
def readSymlink (caller : Caller σ) (path : Path) : EStateM FsError (VfsState σ) (Option Path) :=
  tryCatch (some <$> withFs caller path fun fs rel => fs.readSymlink rel) fun _ => do
    let v ← get
    pure (v.symlinks.lookup (canonicalizePath path))

/-- `vfs::remove_symlink`: drop the table's entry, and say whether there
was one. -/
def removeSymlink (path : Path) : EStateM FsError (VfsState σ) Bool := do
  let v ← get
  let canonical := canonicalizePath path
  set { v with symlinks := v.symlinks.filter (·.1 ≠ canonical) }
  pure (v.symlinks.lookup canonical).isSome

/-- `vfs::exists`. -/
def pathExists (caller : Caller σ) (path : Path) : EStateM FsError (VfsState σ) Bool :=
  tryCatch (withFs caller path fun fs rel => fs.pathExists rel) fun _ => pure false

/-- One round of the loop of `resolve_symlinks`: the next path, or `none`
when the loop breaks. -/
def resolveSymlinksStep (caller : Caller σ) (resolved : Path) :
    EStateM FsError (VfsState σ) (Option Path) := do
  match ← readSymlink caller resolved with
  | some t =>
    if t.head? = some '/' then pure (some (canonicalizePath t))
    else pure (some (resolvePath (splitPath resolved).1 t))
  | none =>
    if resolved = "/bin/sh".toList then
      if ← pathExists caller "/bin/dash".toList then pure (some "/bin/dash".toList)
      else pure none
    else pure none

/-- `resolve_symlinks`: follow links at most eight times. -/
def resolveSymlinks (caller : Caller σ) (path : Path) : EStateM FsError (VfsState σ) Path :=
  go 8 (canonicalizePath path)
where
  go : Nat → Path → EStateM FsError (VfsState σ) Path
    | 0, resolved => pure resolved
    | n + 1, resolved => do
      match ← resolveSymlinksStep caller resolved with
      | some next => go n next
      | none => pure resolved

/-- `vfs::rename`: both paths in the process namespace, on the filesystem
of the old one; else both in the global table, on one filesystem. -/
def rename (caller : Caller σ) (oldPath newPath : Path) : EStateM FsError (VfsState σ) Unit := do
  let absolute p := match caller.process with
    | some (cwd, _) => resolvePath cwd p
    | none => normalizePathOwned p
  let oldAbs := absolute oldPath
  let newAbs := absolute newPath
  let inNamespace := caller.process.bind fun (_, ns) =>
    match resolveArc ns oldAbs, resolveArc ns newAbs with
    | some (fs, oldRel), some (_, newRel) => some (fs, oldRel, newRel)
    | _, _ => none
  match inNamespace with
  | some (fs, oldRel, newRel) => onFs (fs.rename oldRel newRel)
  | none =>
    let v ← get
    let some (oldFs, oldRel) := resolveArc v.mounts oldAbs | throw .notFound
    let some (newFs, newRel) := resolveArc v.mounts newAbs | throw .notFound
    if oldFs.name ≠ newFs.name then throw .notSupported
    onFs (oldFs.rename oldRel newRel)

/-- `sys_unlinkat` without `AT_REMOVEDIR`, on the resolved path: the table's
entry goes first, then the file. -/
def unlink (caller : Caller σ) (resolved : Path) : EStateM FsError (VfsState σ) Unit := do
  let _ ← removeSymlink resolved
  withFs caller resolved fun fs rel => fs.removeFile rel

/-! ## Confinement of a box namespace -/

section Confinement

variable (inner : Filesystem σ) (root cwd : Path)

/-- The namespace of a box with root `root` and nothing else mounted. -/
def boxCaller : Caller σ :=
  ⟨none, some (cwd, [⟨['/'], subdirFs inner root⟩])⟩

theorem resolveArc_root (fs : Filesystem σ) (path : Path) :
    resolveArc [⟨['/'], fs⟩] path = some (fs, normalizePath path) := by
  simp [resolveArc, resolveEntry]

/-- Every path a box process names reaches its `SubdirFs`, relative to it
as the canonical form of the path. -/
theorem resolveFor_box (mounts : List (MountEntry σ)) (path : Path) :
    resolveFor mounts (boxCaller inner root cwd) path =
      .ok (subdirFs inner root, resolvePath cwd path) := by
  obtain ⟨p, hp⟩ := resolvePath_canonical cwd path
  simp [resolveFor, boxCaller, resolveArc_root, hp, normalizePath_toPath]

/-- `with_fs` in a box namespace is the operation on its `SubdirFs`, at the
canonical form of the path. -/
theorem withFs_box_namespace (path : Path) (f : Filesystem σ → Path → EStateM FsError σ α) :
    withFs (boxCaller inner root cwd) path f = onFs (f (subdirFs inner root) (resolvePath cwd path)) := by
  funext v
  simp only [withFs, bind, EStateM.bind, get, getThe, MonadStateOf.get, EStateM.get,
    resolveFor_box]

end Confinement

section Components

/-- `path.split('/')` splits at every slash. -/
theorem splitSlash_go_append_slash :
    ∀ (a b cur : Path), splitSlash.go (a ++ '/' :: b) cur = splitSlash.go a cur ++ splitSlash.go b []
  | [], b, cur => by simp [splitSlash.go]
  | c :: a, b, cur => by
    by_cases hc : c = '/'
    · simp [splitSlash.go, hc, splitSlash_go_append_slash a b []]
    · simp [splitSlash.go, hc, splitSlash_go_append_slash a b (c :: cur)]

/-- The non-empty pieces of a path. -/
def nonEmptyPieces (path : Path) : List Path :=
  (splitSlash path).filter (· ≠ [])

theorem nonEmptyPieces_append_slash (a b : Path) :
    nonEmptyPieces (a ++ '/' :: b) = nonEmptyPieces a ++ nonEmptyPieces b := by
  simp [nonEmptyPieces, splitSlash, splitSlash_go_append_slash, List.filter_append]

theorem nonEmptyPieces_slash_cons (b : Path) : nonEmptyPieces ('/' :: b) = nonEmptyPieces b := by
  rw [← List.nil_append ('/' :: b), nonEmptyPieces_append_slash]
  rfl

theorem nonEmptyPieces_append_slash_nil (a : Path) : nonEmptyPieces (a ++ ['/']) = nonEmptyPieces a := by
  simpa [nonEmptyPieces, splitSlash, splitSlash.go] using nonEmptyPieces_append_slash a []

theorem nonEmptyPieces_trimStart : ∀ path : Path, nonEmptyPieces (trimStart path) = nonEmptyPieces path
  | [] => rfl
  | c :: cs => by
    by_cases hc : c = '/'
    · subst hc
      simp only [trimStart, List.dropWhile_cons, beq_self_eq_true, ↓reduceIte]
      rw [nonEmptyPieces_slash_cons]
      exact nonEmptyPieces_trimStart cs
    · simp [trimStart, hc]

theorem nonEmptyPieces_trimEnd (path : Path) : nonEmptyPieces (trimEnd path) = nonEmptyPieces path := by
  -- trailing slashes are leading ones of the reversed path
  suffices h : ∀ r : Path, nonEmptyPieces (trimStart r).reverse = nonEmptyPieces r.reverse by
    simpa [trimEnd] using h path.reverse
  intro r
  induction r with
  | nil => rfl
  | cons c cs ih =>
    by_cases hc : c = '/'
    · subst hc
      simp only [trimStart, List.dropWhile_cons, beq_self_eq_true, ↓reduceIte] at ih ⊢
      rw [ih, List.reverse_cons, nonEmptyPieces_append_slash_nil]
    · simp [trimStart, hc]

/-- `path_components` are the non-empty pieces: trimming the slashes at the
ends only drops empty ones. -/
theorem pathComponents_eq (path : Path) : pathComponents path = nonEmptyPieces path := by
  rw [pathComponents, ← nonEmptyPieces, nonEmptyPieces_trimEnd, nonEmptyPieces_trimStart]

theorem nonEmptyPieces_toPath (p : CanonicalPath) : nonEmptyPieces p.toPath = p.components := by
  rw [← pathComponents_eq, pathComponents_toPath]

/-- What a box's `SubdirFs` hands the filesystem below for a canonical
path: the components of its root, then those of the path, none of which is
`..`. -/
theorem pathComponents_fullPath (root : Path) (p : CanonicalPath) :
    pathComponents (fullPath (trimEnd root) p.toPath) = pathComponents root ++ p.components := by
  rw [pathComponents_eq, pathComponents_eq, ← nonEmptyPieces_trimEnd root]
  unfold fullPath
  split_ifs with h
  · have hnil : p.components = [] := by
      rw [← nonEmptyPieces_toPath, h]
      rfl
    simp [hnil]
  · cases hc : p.components with
    | nil => exact absurd (by simp [CanonicalPath.toPath, joinComponents, hc]) h
    | cons c cs =>
      have hbody : nonEmptyPieces (c ++ (cs.map ('/' :: ·)).flatten) = c :: cs := by
        rw [← nonEmptyPieces_slash_cons, ← toPath_of_cons hc, nonEmptyPieces_toPath, hc]
      rw [toPath_of_cons hc, nonEmptyPieces_append_slash, hbody]

end Components

/-! ## Composition of `resolve_path` -/

section Compose

/-- `path.split('/')` of `a/b` is the pieces of `a`, then those of `b`. -/
theorem splitSlash_append_slash (a b : Path) :
    splitSlash (a ++ '/' :: b) = splitSlash a ++ splitSlash b := by
  simp [splitSlash, splitSlash_go_append_slash]

theorem splitSlash_slash_cons (rest : Path) : splitSlash ('/' :: rest) = [] :: splitSlash rest := by
  simp [splitSlash, splitSlash.go]

/-- Canonicalizing `a` first changes nothing for a path that goes on past
it: the loop rebuilds `a`'s stack from its canonical form and goes on from
there. -/
theorem canonicalizePath_canonicalizePath_append (a b : Path) :
    canonicalizePath (canonicalizePath a ++ '/' :: b) = canonicalizePath (a ++ '/' :: b) := by
  have hstack := foldl_splitSlash_toPath (canonicalOf a)
  rw [canonicalizePath_eq_toPath a]
  unfold canonicalizePath
  rw [splitSlash_append_slash, splitSlash_append_slash, List.foldl_append, List.foldl_append, hstack]
  rfl

/-- A path that does not start with a slash is resolved as `cwd/path`, the
root included: `canonicalize_path` skips the empty piece between the two
slashes of `//path`. -/
theorem resolvePath_of_relative {path : Path} (h : path.head? ≠ some '/') (baseCwd : Path) :
    resolvePath baseCwd path = canonicalizePath (baseCwd ++ '/' :: path) := by
  rw [resolvePath, if_neg h]
  split_ifs with hroot
  · subst hroot
    simp [canonicalizePath, splitSlash_slash_cons, canonicalizeStep]
  · rfl

/-- Resolving `b` and then `c` against the result is resolving `b/c`, for a
non-empty `b` and a relative `c`. -/
theorem resolvePath_resolvePath {b c : Path} (hb : b ≠ []) (hc : c.head? ≠ some '/') (a : Path) :
    resolvePath (resolvePath a b) c = resolvePath a (b ++ '/' :: c) := by
  obtain ⟨x, xs, rfl⟩ := List.exists_cons_of_ne_nil hb
  rw [resolvePath_of_relative hc]
  by_cases hx : x = '/'
  · -- an absolute `b` is canonicalized on its own, and so is `b/c`
    subst hx
    simp only [resolvePath, List.head?_cons, List.cons_append, if_true]
    exact canonicalizePath_canonicalizePath_append _ c
  · have hbrel : (x :: xs).head? ≠ some '/' := by simpa using hx
    have hbcrel : (x :: xs ++ '/' :: c).head? ≠ some '/' := by simpa using hx
    rw [resolvePath_of_relative hbrel, resolvePath_of_relative hbcrel,
      canonicalizePath_canonicalizePath_append, List.append_assoc]
    rfl

/-- Past a slash, the body `/c₁/…/cₙ` of slash-free pieces goes on with
the body of a tail of the pieces: no slash lies inside a piece. -/
theorem drop_flatten_slash {cs : List Path} (hcs : ∀ d ∈ cs, '/' ∉ d) :
    ∀ n, (((cs.map ('/' :: ·)).flatten).drop n).head? = some '/' →
      ∃ k, ((cs.map ('/' :: ·)).flatten).drop n = ((cs.drop k).map ('/' :: ·)).flatten := by
  induction cs with
  | nil => intro n h; simp at h
  | cons d ds ih =>
    intro n hhead
    cases n with
    | zero => exact ⟨0, rfl⟩
    | succ m =>
      have hd : '/' ∉ d := hcs d (by simp)
      simp only [List.map_cons, List.flatten_cons, List.cons_append, List.drop_succ_cons,
        List.drop_append] at hhead ⊢
      by_cases hm : m < d.length
      · -- the drop starts inside a piece, which holds no slash
        exfalso
        have hne : d.drop m ≠ [] := by simpa using hm
        rw [List.head?_append_of_ne_nil _ hne] at hhead
        exact hd (List.mem_of_mem_drop (List.mem_of_mem_head? hhead))
      · have hdrop : d.drop m = [] := List.drop_eq_nil_of_le (by omega)
        rw [hdrop, List.nil_append] at hhead ⊢
        obtain ⟨k, hk⟩ := ih (fun e he => hcs e (by simp [he])) _ hhead
        exact ⟨k + 1, by simpa using hk⟩

/-- A suffix of a canonical path that starts at a slash is canonical. -/
theorem canonical_drop {p : CanonicalPath} {n : Nat} (h : (p.toPath.drop n).head? = some '/') :
    ∃ q : CanonicalPath, p.toPath.drop n = q.toPath := by
  by_cases hnil : p.components = []
  · -- `/` has no suffix that starts with a slash but itself
    cases n with
    | zero => exact ⟨p, rfl⟩
    | succ m => simp [CanonicalPath.toPath, joinComponents, hnil] at h
  · have hslash : ∀ d ∈ p.components, '/' ∉ d := fun d hd => (p.names d hd).slash_free
    rw [CanonicalPath.toPath, joinComponents, if_neg hnil] at h ⊢
    obtain ⟨k, hk⟩ := drop_flatten_slash hslash n h
    have hrest : p.components.drop k ≠ [] := by
      intro hk0
      rw [hk, hk0] at h
      simp at h
    refine ⟨⟨p.components.drop k, fun d hd => p.names d (List.mem_of_mem_drop hd)⟩, ?_⟩
    rw [hk, CanonicalPath.toPath, joinComponents, if_neg hrest]

/-- What `resolve_arc` hands a filesystem for a canonical path is a
canonical path. -/
theorem resolveArc_canonical {mounts : List (MountEntry σ)} {p : CanonicalPath} {fs : Filesystem σ}
    {rel : Path} (h : resolveArc mounts p.toPath = some (fs, rel)) : ∃ q : CanonicalPath, rel = q.toPath := by
  obtain ⟨m, -, hm⟩ := List.exists_of_findSome?_eq_some h
  rw [normalizePath_toPath] at hm
  unfold resolveEntry at hm
  dsimp only at hm
  -- the root mount, the mount point itself, and a path under it
  split_ifs at hm with hroot heq hpre hempty hslash
  · cases hm
    exact ⟨p, rfl⟩
  · cases hm
    exact ⟨⟨[], by simp⟩, rfl⟩
  · cases hm
    exact ⟨⟨[], by simp⟩, rfl⟩
  · cases hm
    obtain ⟨q, hq⟩ := canonical_drop hslash
    exact ⟨q, hq⟩

/-- With a current process, every path `with_fs` hands a filesystem is
canonical: the spawn namespace and the process's own are searched for
`resolve_path(cwd, path)`, and so is the global table after them. -/
theorem resolveFor_canonical {mounts : List (MountEntry σ)} {caller : Caller σ} {path : Path}
    {fs : Filesystem σ} {rel : Path} (hproc : caller.process ≠ none)
    (h : resolveFor mounts caller path = .ok (fs, rel)) : ∃ q : CanonicalPath, rel = q.toPath := by
  obtain ⟨⟨cwd, ns⟩, hcn⟩ := Option.ne_none_iff_exists'.mp hproc
  obtain ⟨p, hp⟩ := resolvePath_canonical cwd path
  simp only [resolveFor, hcn, Option.map_some, Option.getD_some, hp] at h
  -- the spawn namespace, then the process's, then the global table
  split at h
  · rename_i r hr
    cases h
    obtain ⟨spawn, -, hspawn⟩ := Option.bind_eq_some_iff.mp hr
    exact resolveArc_canonical hspawn
  · split at h
    · rename_i r hr
      cases h
      exact resolveArc_canonical hr
    · cases hg : resolveArc mounts p.toPath with
      | none => simp [hg] at h
      | some r =>
        simp only [hg, Option.elim_some, Except.ok.injEq] at h
        subst h
        exact resolveArc_canonical hg

/-- `canonicalize_path` returns `/` or `/c₁/…/cₙ` with every component a
name, and is idempotent; `resolve_path` composes for a non-empty `b`; an
absolute path is only canonicalized; and with a current process, no
component of the path `with_fs` hands a filesystem through `resolve_arc` is
`.` or `..`. -/
theorem canonical_paths_compose :
    (∀ path : Path, ∃ p : CanonicalPath, canonicalizePath path = p.toPath) ∧
    (∀ path : Path, canonicalizePath (canonicalizePath path) = canonicalizePath path) ∧
    (∀ a b c : Path, a.head? = some '/' → b ≠ [] → b.head? ≠ some '/' → c.head? ≠ some '/' →
      resolvePath (resolvePath a b) c = resolvePath a (b ++ '/' :: c)) ∧
    (∀ a q : Path, q.head? = some '/' → resolvePath a q = canonicalizePath q) ∧
    (∀ (mounts : List (MountEntry σ)) (caller : Caller σ) (path : Path) (fs : Filesystem σ) (rel : Path),
      caller.process ≠ none → resolveFor mounts caller path = .ok (fs, rel) →
      ∀ c ∈ pathComponents rel, c ≠ ['.'] ∧ c ≠ ['.', '.']) := by
  refine ⟨fun path => ⟨_, canonicalizePath_eq_toPath path⟩, canonicalizePath_idem, ?_, ?_, ?_⟩
  · intro a b c _ hb _ hc
    exact resolvePath_resolvePath hb hc a
  · intro a q hq
    rw [resolvePath, if_pos hq]
  · intro mounts caller path fs rel hproc h c hc
    obtain ⟨q, rfl⟩ := resolveFor_canonical hproc h
    rw [pathComponents_toPath] at hc
    exact ⟨(q.names c hc).ne_dot, (q.names c hc).ne_dotdot⟩

/-- The composition fails for an empty `b`, which `resolve_path` takes as
relative: `b/c` is then `/c`, an absolute path. And with no current
process, `with_fs` only normalizes the path, so `resolve_arc` hands the
filesystem its `..`. -/
theorem resolvePath_empty_middle_and_kernel_dotdot :
    resolvePath (resolvePath "/x".toList []) "c".toList = "/x/c".toList ∧
      resolvePath "/x".toList ([] ++ '/' :: "c".toList) = "/c".toList ∧
      resolveFor [⟨['/'], (procFs none (fun _ _ => none) (fun _ => false) : Filesystem Unit)⟩]
          ⟨none, none⟩ "/a/../b".toList =
        .ok (procFs none (fun _ _ => none) (fun _ => false), "/a/../b".toList) :=
  ⟨by decide, by decide, rfl⟩

end Compose

/-! ## Resolution is the longest match -/

section Longest

/-- Mount point `m` covers the normalized path `n`: `m` is `/`, or `n`
itself, or `n` goes on past it after a slash. -/
def Covers (n m : Path) : Prop :=
  m = ['/'] ∨ n = m ∨ (m ++ ['/']) <+: n

instance (n m : Path) : Decidable (Covers n m) :=
  inferInstanceAs (Decidable (_ ∨ _ ∨ _))

/-- The path a covered `n` resolves to under `m`: all of it under `/`, `/`
at the mount point itself, and otherwise what follows `m`. -/
def relativeTo (n m : Path) : Path :=
  if m = ['/'] then n else if n = m then ['/'] else n.drop m.length

theorem prefix_append_slash_iff {m n : Path} :
    (m ++ ['/']) <+: n ↔ m <+: n ∧ (n.drop m.length).head? = some '/' := by
  constructor
  · rintro ⟨t, rfl⟩
    exact ⟨⟨['/'] ++ t, by simp⟩, by simp⟩
  · rintro ⟨⟨t, rfl⟩, ht⟩
    cases t with
    | nil => simp at ht
    | cons c t =>
      have hc : c = '/' := by simpa using ht
      exact ⟨t, by simp [hc]⟩

/-- One step of the loop: a mount answers exactly when it covers the path. -/
theorem resolveEntry_eq (n : Path) (m : MountEntry σ) :
    resolveEntry n m = if Covers n m.path then some (m.fs, relativeTo n m.path) else none := by
  unfold resolveEntry Covers relativeTo
  dsimp only
  by_cases hroot : m.path = ['/']
  · simp [hroot]
  by_cases heq : n = m.path
  · simp [heq, hroot]
  -- under another mount point, `n` must go on past it after a slash
  simp only [hroot, heq, if_false, false_or, prefix_append_slash_iff, List.isPrefixOf_iff_prefix]
  by_cases hpre : m.path <+: n
  · have hrest : n.drop m.path.length ≠ [] := by
      obtain ⟨t, rfl⟩ := hpre
      intro h
      simp only [List.drop_left] at h
      simp [h] at heq
    simp [hpre, hrest]
  · simp [hpre]

/-- `resolve` finds the first mount that covers the path. -/
theorem resolve_eq_find? (mounts : List (MountEntry σ)) (path : Path) :
    resolve mounts path = (mounts.find? fun m => decide (Covers (normalizePath path) m.path)).map
      fun m => (m.fs, relativeTo (normalizePath path) m.path) := by
  unfold resolve
  induction mounts with
  | nil => rfl
  | cons m ms ih =>
    rw [List.findSome?_cons, resolveEntry_eq, List.find?_cons]
    by_cases h : Covers (normalizePath path) m.path <;> simp [h, ih]

/-- In a table sorted longest first, the first entry with a property is a
longest one with it. -/
theorem find?_longest {p : MountEntry σ → Bool} :
    ∀ {mounts : List (MountEntry σ)} {m : MountEntry σ},
      mounts.Pairwise (fun a b => b.path.length ≤ a.path.length) → mounts.find? p = some m →
      ∀ m' ∈ mounts, p m' = true → m'.path.length ≤ m.path.length
  | [], _, _, h, _, _, _ => by simp at h
  | a :: ms, m, hsorted, h, m', hm', hp' => by
    rw [List.pairwise_cons] at hsorted
    rw [List.find?_cons] at h
    split at h
    · -- the head answers, and every later entry is no longer
      cases h
      rcases List.mem_cons.mp hm' with rfl | hm'
      · exact le_refl _
      · exact hsorted.1 m' hm'
    · rename_i hpa
      rcases List.mem_cons.mp hm' with rfl | hm'
      · simp [hp'] at hpa
      · exact find?_longest hsorted.2 h m' hm' hp'

/-- Two absolute mount points of one length that cover one path are one
path. -/
theorem Covers.eq_of_length_eq {n a b : Path} (ha : Covers n a) (hb : Covers n b)
    (habs : a.head? = some '/') (hbabs : b.head? = some '/') (hlen : a.length = b.length) : a = b := by
  -- a one-character absolute path is `/`
  have hroot : ∀ x : Path, x.head? = some '/' → x.length = 1 → x = ['/'] := by
    intro x hx hx1
    match x, hx1 with
    | [c], _ => simpa using hx
  rcases ha with rfl | rfl | ⟨ta, hta⟩
  · exact (hroot b hbabs (by simpa using hlen.symm)).symm
  · rcases hb with rfl | rfl | ⟨tb, rfl⟩
    · exact hroot _ habs (by simpa using hlen)
    · rfl
    · simp at hlen
  · rcases hb with rfl | rfl | ⟨tb, htb⟩
    · exact hroot a habs (by simpa using hlen)
    · subst hta
      simp at hlen
    · -- two prefixes of `n` of one length
      have hpa : a = n.take a.length := by
        rw [← hta]
        simp
      have hpb : b = n.take b.length := by
        rw [← htb]
        simp
      rw [hpa, hpb, hlen]

/-- What `mount` and `unmount` keep of a table: its mount points are
absolute and distinct, and sorted longest first. -/
structure MountInv (mounts : List (MountEntry σ)) : Prop where
  absolute : ∀ m ∈ mounts, m.path.head? = some '/'
  nodup : (mounts.map (·.path)).Nodup
  sorted : mounts.Pairwise fun a b => b.path.length ≤ a.path.length

theorem MountInv.nil : MountInv ([] : List (MountEntry σ)) :=
  ⟨by simp, by simp, by simp⟩

theorem MountInv.mountIn {limit : Nat} {mounts mounts' : List (MountEntry σ)} {path : Path}
    {fs : Filesystem σ} (h : MountInv mounts) (hpath : path.head? = some '/')
    (hm : mountIn limit mounts path fs = .ok mounts') : MountInv mounts' := by
  unfold Vfs.mountIn at hm
  split_ifs at hm with hfull hdup
  cases hm
  have hperm := List.perm_insertionSort (fun a b : MountEntry σ => b.path.length ≤ a.path.length)
    (mounts ++ [⟨path, fs⟩])
  have hnew : path ∉ mounts.map (·.path) := by
    simpa using hdup
  refine ⟨fun m hm => ?_, ?_, ?_⟩
  · rcases List.mem_append.mp (hperm.subset hm) with hm | hm
    · exact h.absolute m hm
    · rw [List.mem_singleton.mp hm]
      exact hpath
  · rw [(hperm.map _).nodup_iff, List.map_append]
    exact List.nodup_append.mpr ⟨h.nodup, by simp, by simpa using hnew⟩
  · -- the sort's relation is a total preorder
    have : Std.Total fun a b : MountEntry σ => b.path.length ≤ a.path.length :=
      ⟨fun a b => le_total _ _⟩
    have : IsTrans (MountEntry σ) fun a b => b.path.length ≤ a.path.length :=
      ⟨fun _ _ _ hab hbc => le_trans hbc hab⟩
    exact List.pairwise_insertionSort _ _

theorem MountInv.unmountIn {mounts mounts' : List (MountEntry σ)} {path : Path}
    (h : MountInv mounts) (hm : unmountIn mounts path = .ok mounts') : MountInv mounts' := by
  unfold Vfs.unmountIn at hm
  split at hm
  · cases hm
    have hsub := List.eraseIdx_sublist mounts ‹Nat›
    exact ⟨fun m hm => h.absolute m (hsub.subset hm), h.nodup.sublist (hsub.map _),
      h.sorted.sublist hsub⟩
  · cases hm

/-- A call on a mount table. -/
inductive MountCall (σ : Type) where
  | mount (path : Path) (fs : Filesystem σ)
  | unmount (path : Path)

/-- The path a call names. -/
def MountCall.path : MountCall σ → Path
  | .mount path _ | .unmount path => path

/-- A call on the global table; a call that fails leaves it as it was. -/
def MountCall.apply (mounts : List (MountEntry σ)) : MountCall σ → List (MountEntry σ)
  | .mount path fs =>
    match mountIn maxMounts mounts path fs with
    | .ok t => t
    | .error _ => mounts
  | .unmount path =>
    match unmountIn mounts path with
    | .ok t => t
    | .error _ => mounts

/-- The table a run of calls leaves. -/
def runMounts (mounts : List (MountEntry σ)) (calls : List (MountCall σ)) : List (MountEntry σ) :=
  calls.foldl MountCall.apply mounts

theorem MountInv.apply {mounts : List (MountEntry σ)} (h : MountInv mounts) {c : MountCall σ}
    (hc : c.path.head? = some '/') : MountInv (MountCall.apply mounts c) := by
  cases c with
  | mount path fs =>
    cases hm : Vfs.mountIn maxMounts mounts path fs with
    | ok t => simpa [MountCall.apply, hm] using h.mountIn hc hm
    | error e => simpa [MountCall.apply, hm] using h
  | unmount path =>
    cases hm : Vfs.unmountIn mounts path with
    | ok t => simpa [MountCall.apply, hm] using h.unmountIn hm
    | error e => simpa [MountCall.apply, hm] using h

theorem MountInv.runMounts {mounts : List (MountEntry σ)} (h : MountInv mounts) :
    ∀ {calls : List (MountCall σ)}, (∀ c ∈ calls, c.path.head? = some '/') →
      MountInv (Vfs.runMounts mounts calls)
  | [], _ => h
  | c :: cs, hcs => by
    have hc := hcs c List.mem_cons_self
    exact (h.apply hc).runMounts fun c' hc' => hcs c' (List.mem_cons_of_mem c hc')

/-- On a table that keeps `MountInv`, `resolve` answers with the longest
mount point that covers the path, and with nothing when none does. -/
theorem MountInv.resolve_spec {mounts : List (MountEntry σ)} (h : MountInv mounts) (path : Path) :
    (∀ fs rel, resolve mounts path = some (fs, rel) ↔
      ∃ m ∈ mounts, Covers (normalizePath path) m.path ∧
        (∀ m' ∈ mounts, Covers (normalizePath path) m'.path → m'.path.length ≤ m.path.length) ∧
        fs = m.fs ∧ rel = relativeTo (normalizePath path) m.path) ∧
    (resolve mounts path = none ↔ ∀ m ∈ mounts, ¬ Covers (normalizePath path) m.path) := by
  set n := normalizePath path
  rw [resolve_eq_find?]
  refine ⟨fun fs rel => ⟨?_, ?_⟩, ?_⟩
  · intro hr
    obtain ⟨m, hm, hpair⟩ := Option.map_eq_some_iff.mp hr
    cases hpair
    have hcov : Covers n m.path := by simpa using List.find?_some hm
    exact ⟨m, List.mem_of_find?_eq_some hm, hcov,
      fun m' hm' hc' => find?_longest h.sorted hm m' hm' (by simpa using hc'), rfl, rfl⟩
  · rintro ⟨m, hm, hcov, hlong, rfl, rfl⟩
    -- the first covering entry is as long as `m`, so it is `m`
    obtain ⟨m0, hm0⟩ : ∃ m0, mounts.find? (fun m => decide (Covers n m.path)) = some m0 := by
      refine Option.isSome_iff_exists.mp (List.find?_isSome.mpr ⟨m, hm, by simpa using hcov⟩)
    have hmem0 := List.mem_of_find?_eq_some hm0
    have hcov0 : Covers n m0.path := by simpa using List.find?_some hm0
    have hle0 := find?_longest h.sorted hm0 m hm (by simpa using hcov)
    have hle := hlong m0 hmem0 hcov0
    have hpath : m0.path = m.path :=
      hcov0.eq_of_length_eq hcov (h.absolute m0 hmem0) (h.absolute m hm) (le_antisymm hle hle0)
    have : m0 = m := List.inj_on_of_nodup_map h.nodup hmem0 hm hpath
    subst this
    rw [hm0]
    rfl
  · rw [Option.map_eq_none_iff, List.find?_eq_none]
    simp [n]

/-- On every table that `mount` and `unmount` build from an empty one with
normalized absolute paths, `resolve` answers for a path with the mount
point of greatest length among those that cover it, and the path relative
to that mount point; it answers nothing exactly when no mount point covers
the path; and `resolve_arc` answers as `resolve` does. -/
theorem resolve_longest_match (calls : List (MountCall σ))
    (hcalls : ∀ c ∈ calls, c.path.head? = some '/' ∧ normalizePath c.path = c.path) (path : Path) :
    (∀ fs rel, resolve (runMounts [] calls) path = some (fs, rel) ↔
      ∃ m ∈ runMounts [] calls, Covers (normalizePath path) m.path ∧
        (∀ m' ∈ runMounts [] calls, Covers (normalizePath path) m'.path →
          m'.path.length ≤ m.path.length) ∧
        fs = m.fs ∧ rel = relativeTo (normalizePath path) m.path) ∧
    (resolve (runMounts [] calls) path = none ↔
      ∀ m ∈ runMounts [] calls, ¬ Covers (normalizePath path) m.path) ∧
    resolveArc (runMounts [] calls) path = resolve (runMounts [] calls) path := by
  have hinv := MountInv.nil.runMounts fun c hc => (hcalls c hc).1
  exact ⟨(hinv.resolve_spec path).1, (hinv.resolve_spec path).2, rfl⟩

/-- The boot table, `/` and `/proc`: `/proc/1` resolves to the procfs
mounted at `/proc`, the longest mount point that covers it, with the rest
`/1`. -/
theorem resolve_longest_match_on_boot_table :
    (let procRoot : Filesystem Unit := procFs none (fun _ _ => none) (fun _ => false)
     let calls : List (MountCall Unit) := [.mount ['/'] procRoot, .mount "/proc".toList procRoot]
     (∀ c ∈ calls, c.path.head? = some '/' ∧ normalizePath c.path = c.path) ∧
       resolve (runMounts [] calls) "/proc/1".toList = some (procRoot, "/1".toList) ∧
       ∃ m ∈ runMounts [] calls, m.path = "/proc".toList ∧ Covers (normalizePath "/proc/1".toList) m.path ∧
         (∀ m' ∈ runMounts [] calls, Covers (normalizePath "/proc/1".toList) m'.path →
           m'.path.length ≤ m.path.length) ∧
         procRoot = m.fs ∧ "/1".toList = relativeTo (normalizePath "/proc/1".toList) m.path) := by
  intro procRoot calls
  have hcalls : ∀ c ∈ calls, c.path.head? = some '/' ∧ normalizePath c.path = c.path := by
    intro c hc
    simp only [calls, List.mem_cons, List.not_mem_nil, or_false] at hc
    rcases hc with rfl | rfl <;> decide
  have hres : resolve (runMounts [] calls) "/proc/1".toList = some (procRoot, "/1".toList) := rfl
  obtain ⟨m, hm, hcov, hlongest, hfs, hrel⟩ := ((resolve_longest_match calls hcalls _).1 _ _).mp hres
  -- the longest cover is the second mount: `/` is shorter
  have hpath : m.path = "/proc".toList := by
    have hmems : runMounts [] calls = [⟨"/proc".toList, procRoot⟩, ⟨['/'], procRoot⟩] := rfl
    rw [hmems] at hm hlongest
    rcases List.mem_cons.mp hm with rfl | hm
    · rfl
    · obtain rfl := List.mem_singleton.mp hm
      have := hlongest _ List.mem_cons_self (by decide)
      simp at this
  exact ⟨hcalls, hres, m, hm, hpath, hcov, hlongest, hfs, hrel⟩

end Longest

/-! ## The symlink table is shared -/

/-- The global mount table after `fs::init`: the root filesystem at `/`,
procfs at `/proc`. -/
def bootMounts (root proc : Filesystem σ) : Except FsError (List (MountEntry σ)) := do
  let t ← mountIn maxMounts [] ['/'] root
  mountIn maxMounts t "/proc".toList proc

/-- A box rooted at `/box` that mounted procfs at its `/proc` (`sys_mount`
in a box mounts into its own namespace) creates the symlink `/proc/foo`.
Procfs does not support symlinks, so the link goes into the global table
under `/proc/foo`, and the host's `read_symlink("/proc/foo")`, which found
nothing before, now returns the box's target. -/
theorem createSymlink_box_reaches_host (root : Filesystem σ) (s : σ) (target : Path)
    (currentPid : Option Nat) (fdPath : Nat → Nat → Option Path) (procExists : Path → Bool) :
    ∃ global ns, bootMounts root (procFs currentPid fdPath procExists) = .ok global ∧
      mountIn maxNsMounts (createBoxNamespace (some root) "/box".toList) "/proc".toList
          (procFs currentPid fdPath procExists) = .ok ns ∧
      (readSymlink ⟨none, some (['/'], [])⟩ "/proc/foo".toList).run' ⟨s, global, []⟩ =
        some none ∧
      (do createSymlink ⟨none, some (['/'], ns)⟩ "/proc/foo".toList target
          readSymlink ⟨none, some (['/'], [])⟩ "/proc/foo".toList).run' ⟨s, global, []⟩ =
        some (some target) :=
  ⟨_, _, rfl, rfl, rfl, rfl⟩

end Akuma.Vfs
