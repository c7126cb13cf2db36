import Mathlib

/-!
# The VFS vocabulary

What the `akuma-vfs` crate gives every filesystem: the error type and the
directory entries of `types.rs`, and the path functions of `path.rs`, which
the kernel's VFS layer and the ext2 driver both call, together with the
trailing-slash normalization of the mount tables.

A path is the list of the characters of its `&str`. Splitting on `'/'`
character by character is splitting the UTF-8 bytes on `0x2F`, which never
occurs inside a multi-byte character.

The results say what a canonical path is: `canonicalize_path` returns
`/c₁/…/cₙ` (or `/`) with no `cᵢ` empty, `.`, `..` or holding a slash
(`CanonicalPath`); such a path is a fixed point of `canonicalize_path` and
of the mount tables' normalization, and `path_components` reads its
components back.
-/

namespace Akuma.Vfs

/-! ## Types -/

/-- `FsError`. -/
inductive FsError where
  | blockDeviceNotInitialized
  | notInitialized
  | notFound
  | permissionDenied
  | alreadyExists
  | notADirectory
  | notAFile
  | directoryNotEmpty
  | ioError
  | invalidPath
  | noSpace
  | tooManyOpenFiles
  | invalidHandle
  | corrupt
  | endOfFile
  | noFilesystem
  | internal
  | readOnly
  | notSupported
  deriving DecidableEq, Repr

/-- `DirEntry`, with the name as its UTF-8 bytes. -/
structure DirEntry where
  name : List UInt8
  isDir : Bool
  isSymlink : Bool
  size : Nat
  deriving DecidableEq, Repr

/-! ## Paths -/

/-- A path: the characters of a `&str`. -/
abbrev Path := List Char

/-- The UTF-8 bytes of a path, as `str::as_bytes` gives them. -/
def Path.utf8 (p : Path) : List UInt8 :=
  p.flatMap String.utf8EncodeChar

/-- `path.split('/')`: the pieces between the slashes, empty ones included.
The loop keeps the current piece reversed in `cur`. -/
def splitSlash (path : Path) : List Path :=
  go path []
where
  go : Path → Path → List Path
    | [], cur => [cur.reverse]
    | c :: cs, cur => if c = '/' then cur.reverse :: go cs [] else go cs (c :: cur)

/-- `trim_start_matches('/')`. -/
def trimStart (path : Path) : Path :=
  path.dropWhile (· == '/')

/-- `trim_end_matches('/')`. -/
def trimEnd (path : Path) : Path :=
  (trimStart path.reverse).reverse

/-- One component of the loop of `canonicalize_path`: `""` and `"."` are
skipped, `".."` pops the last component kept. -/
def canonicalizeStep (components : List Path) (c : Path) : List Path :=
  if c = [] ∨ c = ['.'] then components
  else if c = ['.', '.'] then components.dropLast
  else components ++ [c]

/-- The path `/c₁/…/cₙ` of its components, and `/` for none: the tail of
`canonicalize_path`. -/
def joinComponents (components : List Path) : Path :=
  if components = [] then ['/'] else (components.map ('/' :: ·)).flatten

/-- `canonicalize_path`: resolve `.` and `..` components. -/
def canonicalizePath (path : Path) : Path :=
  joinComponents ((splitSlash path).foldl canonicalizeStep [])

/-- `resolve_path`: a relative path is joined to the working directory
first. -/
def resolvePath (baseCwd path : Path) : Path :=
  if path.head? = some '/' then canonicalizePath path
  else if baseCwd = ['/'] then canonicalizePath ('/' :: path)
  else canonicalizePath (baseCwd ++ '/' :: path)

/-- `split_path`: the parent and the last component, after trimming the
slashes at both ends; the parent of a single component is empty. -/
def splitPath (path : Path) : Path × Path :=
  let path := trimEnd (trimStart path)
  let name := (path.reverse.takeWhile (· != '/')).reverse
  if name.length = path.length then ([], path)
  else (path.take (path.length - name.length - 1), name)

/-- `path_components`: the non-empty pieces of the path. -/
def pathComponents (path : Path) : List Path :=
  (splitSlash (trimEnd (trimStart path))).filter (· ≠ [])

/-- `normalize_path` of the mount tables: trailing slashes go, and the empty
path is `/`. -/
def normalizePath (path : Path) : Path :=
  let trimmed := trimEnd path
  if trimmed = [] then ['/'] else trimmed

/-! ## Canonical paths -/

/-- A component `canonicalize_path` keeps. -/
structure IsName (c : Path) : Prop where
  ne_nil : c ≠ []
  ne_dot : c ≠ ['.']
  ne_dotdot : c ≠ ['.', '.']
  slash_free : '/' ∉ c

/-- A path in the form `canonicalize_path` returns, by its components. -/
structure CanonicalPath where
  components : List Path
  names : ∀ c ∈ components, IsName c

/-- The path itself. -/
def CanonicalPath.toPath (p : CanonicalPath) : Path :=
  joinComponents p.components

section Split

theorem splitSlash_go_slash_free :
    ∀ (path cur : Path), '/' ∉ cur → ∀ p ∈ splitSlash.go path cur, '/' ∉ p
  | [], cur, hcur, p, hp => by
    simp only [splitSlash.go, List.mem_singleton] at hp
    simpa [hp] using hcur
  | c :: cs, cur, hcur, p, hp => by
    simp only [splitSlash.go] at hp
    split_ifs at hp with hc
    · rcases List.mem_cons.mp hp with rfl | hp
      · simpa using hcur
      · exact splitSlash_go_slash_free cs [] (by simp) p hp
    · exact splitSlash_go_slash_free cs (c :: cur) (by simp [hcur, Ne.symm hc]) p hp

/-- No piece of `path.split('/')` holds a slash. -/
theorem splitSlash_slash_free {path p : Path} (hp : p ∈ splitSlash path) : '/' ∉ p :=
  splitSlash_go_slash_free path [] (by simp) p hp

/-- A slash-free stretch goes into the current piece. -/
theorem splitSlash_go_append {c : Path} (hc : '/' ∉ c) :
    ∀ (rest cur : Path), splitSlash.go (c ++ rest) cur = splitSlash.go rest (c.reverse ++ cur) := by
  induction c with
  | nil => intro rest cur; rfl
  | cons x c ih =>
    intro rest cur
    have hx : x ≠ '/' := fun h => hc (by simp [h])
    have hc' : '/' ∉ c := fun h => hc (List.mem_cons_of_mem x h)
    simp only [List.cons_append, splitSlash.go, if_neg hx, ih hc', List.reverse_cons,
      List.append_assoc, List.nil_append]

/-- Splitting `c/c₁/…/cₙ` gives its pieces back. -/
theorem splitSlash_go_join {c : Path} (hc : '/' ∉ c) :
    ∀ cs : List Path, (∀ d ∈ cs, '/' ∉ d) →
      splitSlash.go (c ++ (cs.map ('/' :: ·)).flatten) [] = c :: cs := by
  intro cs
  induction cs generalizing c with
  | nil =>
    intro _
    simpa [splitSlash.go] using splitSlash_go_append hc [] []
  | cons d cs ih =>
    intro hcs
    have hd : '/' ∉ d := hcs d (by simp)
    rw [List.map_cons, List.flatten_cons, splitSlash_go_append hc]
    simp only [List.cons_append, splitSlash.go, ↓reduceIte, List.append_nil, List.reverse_reverse]
    rw [ih hd (fun e he => hcs e (by simp [he]))]

theorem splitSlash_joinComponents {cs : List Path} (hne : cs ≠ []) (hcs : ∀ d ∈ cs, '/' ∉ d) :
    splitSlash (joinComponents cs) = [] :: cs := by
  obtain ⟨d, ds, rfl⟩ := List.exists_cons_of_ne_nil hne
  have hd : '/' ∉ d := hcs d (by simp)
  simp only [joinComponents, if_neg hne, List.map_cons, List.flatten_cons, List.cons_append,
    splitSlash, splitSlash.go, if_pos, List.reverse_nil]
  rw [splitSlash_go_join hd ds (fun e he => hcs e (by simp [he]))]

end Split

section Canonical

/-- The step keeps the components names. -/
theorem canonicalizeStep_names {acc : List Path} {c : Path} (hacc : ∀ d ∈ acc, IsName d)
    (hc : '/' ∉ c) : ∀ d ∈ canonicalizeStep acc c, IsName d := by
  unfold canonicalizeStep
  split_ifs with h₁ h₂
  · exact hacc
  · exact fun d hd => hacc d (List.mem_of_mem_dropLast hd)
  · intro d hd
    rcases List.mem_append.mp hd with hd | hd
    · exact hacc d hd
    · rw [List.mem_singleton.mp hd]
      simp only [not_or] at h₁
      exact ⟨h₁.1, h₁.2, h₂, hc⟩

/-- The loop of `canonicalize_path` over slash-free pieces keeps only
names. -/
theorem foldl_canonicalizeStep_names :
    ∀ (pieces acc : List Path), (∀ d ∈ acc, IsName d) → (∀ p ∈ pieces, '/' ∉ p) →
      ∀ d ∈ pieces.foldl canonicalizeStep acc, IsName d
  | [], _, hacc, _ => hacc
  | p :: ps, acc, hacc, hps =>
    foldl_canonicalizeStep_names ps _ (canonicalizeStep_names hacc (hps p (by simp)))
      (fun q hq => hps q (by simp [hq]))

/-- Over names the loop only appends. -/
theorem foldl_canonicalizeStep_of_names :
    ∀ (cs acc : List Path), (∀ d ∈ cs, IsName d) → cs.foldl canonicalizeStep acc = acc ++ cs
  | [], acc, _ => by simp
  | c :: cs, acc, hcs => by
    have hc := hcs c (by simp)
    have hstep : canonicalizeStep acc c = acc ++ [c] := by
      simp [canonicalizeStep, hc.ne_nil, hc.ne_dot, hc.ne_dotdot]
    rw [List.foldl_cons, hstep, foldl_canonicalizeStep_of_names cs _ (fun d hd => hcs d (by simp [hd]))]
    simp

/-- The canonical form of `path`, as `canonicalize_path` computes it. -/
def canonicalOf (path : Path) : CanonicalPath :=
  ⟨(splitSlash path).foldl canonicalizeStep [],
    foldl_canonicalizeStep_names _ [] (by simp) (fun _ hp => splitSlash_slash_free hp)⟩

/-- `canonicalize_path` returns a canonical path: no component of its
result is empty, `.` or `..`. -/
theorem canonicalizePath_eq_toPath (path : Path) :
    canonicalizePath path = (canonicalOf path).toPath := rfl

/-- The loop of `canonicalize_path` over the pieces of a canonical path
rebuilds its components. -/
theorem foldl_splitSlash_toPath (p : CanonicalPath) :
    (splitSlash p.toPath).foldl canonicalizeStep [] = p.components := by
  by_cases hne : p.components = []
  · simp [CanonicalPath.toPath, hne, joinComponents, splitSlash, splitSlash.go, canonicalizeStep]
  · have hslash : ∀ d ∈ p.components, '/' ∉ d := fun d hd => (p.names d hd).slash_free
    rw [CanonicalPath.toPath, splitSlash_joinComponents hne hslash, List.foldl_cons,
      foldl_canonicalizeStep_of_names _ _ p.names]
    simp [canonicalizeStep]

/-- A canonical path is a fixed point of `canonicalize_path`. -/
theorem canonicalizePath_toPath (p : CanonicalPath) : canonicalizePath p.toPath = p.toPath := by
  rw [canonicalizePath, foldl_splitSlash_toPath]
  rfl

theorem canonicalizePath_idem (path : Path) :
    canonicalizePath (canonicalizePath path) = canonicalizePath path :=
  canonicalizePath_toPath (canonicalOf path)

/-- `resolve_path` returns a canonical path, whatever the working
directory. -/
theorem resolvePath_canonical (baseCwd path : Path) :
    ∃ p : CanonicalPath, resolvePath baseCwd path = p.toPath := by
  unfold resolvePath
  split_ifs
  · exact ⟨_, canonicalizePath_eq_toPath path⟩
  · exact ⟨_, canonicalizePath_eq_toPath _⟩
  · exact ⟨_, canonicalizePath_eq_toPath _⟩

end Canonical

section Normalize

theorem trimStart_of_head {path : Path} (h : path.head? ≠ some '/') : trimStart path = path := by
  cases path with
  | nil => rfl
  | cons c cs =>
    have hc : c ≠ '/' := fun hc => h (by simp [hc])
    simp [trimStart, hc]

theorem trimEnd_of_last {path : Path} (h : path.reverse.head? ≠ some '/') : trimEnd path = path := by
  rw [trimEnd, trimStart_of_head h, List.reverse_reverse]

/-- The body `c/c₁/…/cₙ` of a canonical path neither starts nor ends with a
slash. -/
theorem join_head? {c : Path} (hc : IsName c) (cs : List Path) :
    (c ++ (cs.map ('/' :: ·)).flatten).head? ≠ some '/' := by
  cases c with
  | nil => exact absurd rfl hc.ne_nil
  | cons x xs => simpa using fun h : x = '/' => hc.slash_free (by simp [h])

theorem join_reverse_head? {c : Path} {cs : List Path} (hc : IsName c)
    (hcs : ∀ d ∈ cs, IsName d) : (c ++ (cs.map ('/' :: ·)).flatten).reverse.head? ≠ some '/' := by
  induction cs generalizing c with
  | nil =>
    rw [List.map_nil, List.flatten_nil, List.append_nil, List.head?_reverse]
    exact fun h => hc.slash_free (List.mem_of_getLast? h)
  | cons d ds ih =>
    have hd : IsName d := hcs d (by simp)
    -- the last name lies in the tail `d/…`, which is not empty
    have htail : (d ++ (ds.map ('/' :: ·)).flatten).reverse ≠ [] := by
      simp [hd.ne_nil]
    rw [List.map_cons, List.flatten_cons, List.cons_append, ← List.singleton_append,
      ← List.append_assoc, List.reverse_append, List.head?_append_of_ne_nil _ htail]
    exact ih hd (fun e he => hcs e (by simp [he]))

/-- A non-root canonical path is `/` followed by its body. -/
theorem toPath_of_cons {p : CanonicalPath} {c : Path} {cs : List Path}
    (h : p.components = c :: cs) : p.toPath = '/' :: (c ++ (cs.map ('/' :: ·)).flatten) := by
  simp [CanonicalPath.toPath, joinComponents, h]

/-- A canonical path has no trailing slash to trim. -/
theorem normalizePath_toPath (p : CanonicalPath) : normalizePath p.toPath = p.toPath := by
  cases h : p.components with
  | nil => simp [normalizePath, CanonicalPath.toPath, h, joinComponents, trimEnd, trimStart]
  | cons c cs =>
    have hc : IsName c := p.names c (by simp [h])
    have hcs : ∀ d ∈ cs, IsName d := fun d hd => p.names d (by simp [h, hd])
    have hlast : p.toPath.reverse.head? ≠ some '/' := by
      rw [toPath_of_cons h, List.reverse_cons, List.head?_append_of_ne_nil]
      · exact join_reverse_head? hc hcs
      · simp [hc.ne_nil]
    have hnil : p.toPath ≠ [] := by simp [toPath_of_cons h]
    simp [normalizePath, trimEnd_of_last hlast, hnil]

/-- `path_components` reads the components of a canonical path back. -/
theorem pathComponents_toPath (p : CanonicalPath) : pathComponents p.toPath = p.components := by
  cases h : p.components with
  | nil =>
    simp [pathComponents, CanonicalPath.toPath, h, joinComponents, trimEnd, trimStart, splitSlash,
      splitSlash.go]
  | cons c cs =>
    have hc : IsName c := p.names c (by simp [h])
    have hcs : ∀ d ∈ cs, IsName d := fun d hd => p.names d (by simp [h, hd])
    have hstart : trimStart p.toPath = c ++ (cs.map ('/' :: ·)).flatten := by
      rw [toPath_of_cons h, trimStart, List.dropWhile_cons_of_pos (by simp)]
      exact trimStart_of_head (join_head? hc cs)
    rw [pathComponents, hstart, trimEnd_of_last (join_reverse_head? hc hcs), splitSlash,
      splitSlash_go_join hc.slash_free cs (fun d hd => (hcs d hd).slash_free)]
    refine List.filter_eq_self.mpr fun d hd => ?_
    have hd' : IsName d := p.names d (by simpa [h] using hd)
    simpa using hd'.ne_nil

end Normalize

/-- `canonicalize_path` at a few inputs. -/
example : canonicalizePath "/a/./b/../c//d/".toList = "/a/c/d".toList := by decide
example : canonicalizePath "../../..".toList = "/".toList := by decide
example : splitPath "/usr/bin/ls".toList = ("usr/bin".toList, "ls".toList) := by decide

end Akuma.Vfs
