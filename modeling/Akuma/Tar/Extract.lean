import Mathlib

/-!
# Tar extraction

`untar_in_memory` of `userspace/tar/src/main.rs` once the archive is
inflated, with the header helpers it calls: `parse_tar_path`,
`extract_str`, `parse_octal`, `verify_header_checksum`, `padded_size`,
`join_path`, `ensure_parent` and `relative_symlink_target`. Strings are
their UTF-8 bytes; whether `from_utf8` accepts a byte string is a parameter
of the model (`utf8Valid`), as the code only ever takes the empty string in
its place. The loop's effects are its calls to `mkdir_p`, `symlink` and
`open` for writing, in order, as `TarAction`s; what the file system makes of
them, and the messages and counts printed, are left out.

Entry names are joined to the target directory as they are. `resolvePath`
says where a path leads, `..` included: an entry named `../n` creates `n`
beside the target directory, not under it (`dotdot_entry_escapes`).
-/

namespace Akuma.Tar

/-! ## Paths -/

/-- `'/'`. -/
def slash : Nat := 0x2f
/-- `'.'`. -/
def dot : Nat := 0x2e

/-- `s.ends_with('/')`. -/
def endsWithSlash (s : List Nat) : Bool := s.getLast? == some slash

/-- `s.starts_with('/')`. -/
def startsWithSlash (s : List Nat) : Bool := s.head? == some slash

/-- `s.rfind('/')`. -/
def rfindSlash : List Nat → Option Nat
  | [] => none
  | c :: s =>
    match rfindSlash s with
    | some i => some (i + 1)
    | none => if c = slash then some 0 else none

/-- `join_path`: one `/` between the two, whichever side has it. -/
def joinPath (targetDir path : List Nat) : List Nat :=
  if !endsWithSlash targetDir && !startsWithSlash path then targetDir ++ slash :: path
  else if endsWithSlash targetDir && startsWithSlash path then targetDir.dropLast ++ path
  else targetDir ++ path

/-- What the loop asks of the file system. -/
inductive TarAction
  | mkdirP (path : List Nat)
  | symlink (target linkPath : List Nat)
  | create (path data : List Nat)
  deriving DecidableEq, Repr

/-- `ensure_parent`: `mkdir_p` of everything before the last `/`, if that
is not empty. -/
def ensureParent (fullPath : List Nat) : List TarAction :=
  match rfindSlash fullPath with
  | some i => if fullPath.take i ≠ [] then [.mkdirP (fullPath.take i)] else []
  | none => []

/-- The directory part of a path: before its last `/`, or empty. -/
def dirPart (p : List Nat) : List Nat :=
  match rfindSlash p with
  | some i => p.take i
  | none => []

/-- The name part of a path: after its last `/`, or all of it. -/
def namePart (p : List Nat) : List Nat :=
  match rfindSlash p with
  | some i => p.drop (i + 1)
  | none => p

/-- `split('/')` of a directory part, none for the empty one. -/
def splitParts (d : List Nat) : List (List Nat) := if d = [] then [] else d.splitOn slash

/-- The length of the common prefix of two lists of parts. -/
def commonPrefixLen : List (List Nat) → List (List Nat) → Nat
  | a :: as, b :: bs => if a = b then commonPrefixLen as bs + 1 else 0
  | _, _ => 0

/-- `relative_symlink_target`: the path from the directory of `linkPath` to
`targetPath`, both relative to the archive's root. -/
def relativeSymlinkTarget (linkPath targetPath : List Nat) : List Nat :=
  let linkDir := dirPart linkPath
  let targetDirPart := dirPart targetPath
  let targetName := namePart targetPath
  if linkDir = targetDirPart then targetName
  else
    let linkParts := splitParts linkDir
    let targetParts := splitParts targetDirPart
    let common := commonPrefixLen linkParts targetParts
    (List.replicate (linkParts.length - common) [dot, dot, slash]).flatten ++
      ((targetParts.drop common).map (· ++ [slash])).flatten ++ targetName

/-- `path.strip_prefix("./")`, as the loop writes it out. -/
def stripDotSlash : List Nat → List Nat
  | 0x2e :: 0x2f :: rest => rest
  | p => p

/-! ## Header fields -/

section Header

variable (utf8Valid : List Nat → Bool)

/-- `extract_str`: the bytes before the first NUL, or the empty string when
they are not UTF-8. -/
def extractStr (bytes : List Nat) : List Nat :=
  let s := bytes.takeWhile (· ≠ 0)
  if utf8Valid s then s else []

/-- The characters `trim_matches` takes off both ends of a size field. -/
def isNulOrSpace (c : Nat) : Bool := c = 0 || c = 0x20

/-- `s.trim_matches(|c| c == '\0' || c == ' ')`. -/
def trimNulSpace (s : List Nat) : List Nat :=
  ((s.dropWhile isNulOrSpace).reverse.dropWhile isNulOrSpace).reverse

/-- The octal digits of `from_str_radix(_, 8)`: all of them digits, and the
value within a `usize`. -/
def octalDigits (ds : List Nat) : Option Nat :=
  if ds.all (fun d => 0x30 ≤ d && d ≤ 0x37) then
    let v := ds.foldl (fun acc d => acc * 8 + (d - 0x30)) 0
    if v < 2 ^ 64 then some v else none
  else none

/-- `usize::from_str_radix(s, 8)`: an optional `+`, then octal digits. -/
def fromStrRadix8 : List Nat → Option Nat
  | [] => none
  | [0x2b] => none
  | 0x2b :: ds => octalDigits ds
  | ds => octalDigits ds

/-- `parse_octal`: 0 for anything that does not parse. -/
def parseOctal (bytes : List Nat) : Nat :=
  let s := if utf8Valid bytes then bytes else []
  (fromStrRadix8 (trimNulSpace s)).getD 0

/-- `verify_header_checksum`: the stored checksum against the sum of the
bytes with the checksum field as spaces, unsigned or signed; the signed sum
is a `u32` that wraps. -/
def verifyHeaderChecksum (hdr : List Nat) : Bool :=
  let stored := parseOctal utf8Valid ((hdr.take 156).drop 148)
  let field (i : Nat) : Bool := 148 ≤ i && i < 156
  let sum := (hdr.zipIdx.map fun (b, i) => if field i then 0x20 else b).sum
  let signedSum := (hdr.zipIdx.map fun (b, i) =>
    if field i then 0x20 else if b < 0x80 then b else 2 ^ 32 + b - 0x100).sum % 2 ^ 32
  sum == stored || signedSum == stored

/-- `ustar\0`. -/
def ustarMagic : List Nat := [0x75, 0x73, 0x74, 0x61, 0x72, 0]

/-- `parse_tar_path`: the name, behind the USTAR prefix when there is one. -/
def parseTarPath (hdr : List Nat) : List Nat :=
  let name := extractStr utf8Valid (hdr.take 100)
  if (hdr.take 263).drop 257 == ustarMagic then
    let pfx := extractStr utf8Valid ((hdr.take 500).drop 345)
    if pfx ≠ [] then pfx ++ slash :: name else name
  else name

end Header

/-- `padded_size`: rounded up to whole 512-byte blocks. A size field holds
at most twelve octal digits, so the addition does not wrap. -/
def paddedSize (size : Nat) : Nat := (size + 511) / 512 * 512

/-! ## Sizes -/

/-- Each octal digit multiplies what came before by eight. -/
theorem foldl_octal_lt (ds : List Nat) (hd : ∀ d ∈ ds, d ≤ 0x37) (acc : Nat) :
    ds.foldl (fun acc d => acc * 8 + (d - 0x30)) acc < (acc + 1) * 8 ^ ds.length := by
  induction ds generalizing acc with
  | nil => simp
  | cons d ds ih =>
    have hd7 : d - 0x30 < 8 := by
      have := hd d List.mem_cons_self
      omega
    calc (d :: ds).foldl (fun acc d => acc * 8 + (d - 0x30)) acc
        = ds.foldl (fun acc d => acc * 8 + (d - 0x30)) (acc * 8 + (d - 0x30)) := rfl
      _ < (acc * 8 + (d - 0x30) + 1) * 8 ^ ds.length :=
          ih (fun d' h => hd d' (List.mem_cons_of_mem _ h)) _
      _ ≤ (acc * 8 + 8) * 8 ^ ds.length := Nat.mul_le_mul_right _ (by omega)
      _ = (acc + 1) * 8 ^ (d :: ds).length := by rw [List.length_cons, pow_succ]; ring

theorem octalDigits_lt {ds : List Nat} {v : Nat} (h : octalDigits ds = some v) :
    v < 8 ^ ds.length := by
  unfold octalDigits at h
  split_ifs at h with hall
  dsimp only at h
  split_ifs at h
  obtain rfl := Option.some.inj h
  have hd : ∀ d ∈ ds, d ≤ 0x37 := fun d hd => by
    have := List.all_eq_true.mp hall d hd
    simp at this
    omega
  simpa using foldl_octal_lt ds hd 0

theorem fromStrRadix8_lt {s : List Nat} {v : Nat} (h : fromStrRadix8 s = some v) :
    v < 8 ^ s.length := by
  unfold fromStrRadix8 at h
  split at h
  · contradiction
  · contradiction
  · -- the sign takes a byte and adds no digit
    calc v < 8 ^ _ := octalDigits_lt h
      _ ≤ 8 ^ _ := Nat.pow_le_pow_right (by decide) (by simp)
  · exact octalDigits_lt h

theorem length_trimNulSpace_le (s : List Nat) : (trimNulSpace s).length ≤ s.length := by
  unfold trimNulSpace
  simp only [List.length_reverse]
  calc _ ≤ (s.dropWhile isNulOrSpace).reverse.length := List.length_dropWhile_le _ _
    _ ≤ s.length := by simpa using List.length_dropWhile_le _ _

/-- `parse_octal` of `k` bytes is below `8 ^ k`. -/
theorem parseOctal_lt (utf8Valid : List Nat → Bool) (bytes : List Nat) :
    parseOctal utf8Valid bytes < 8 ^ bytes.length := by
  rw [parseOctal]
  have hs : (if utf8Valid bytes then bytes else []).length ≤ bytes.length := by
    split <;> simp
  rcases hv : fromStrRadix8 (trimNulSpace (if utf8Valid bytes then bytes else [])) with _ | v
  · simp
  · rw [Option.getD_some]
    calc v < 8 ^ (trimNulSpace (if utf8Valid bytes then bytes else [])).length :=
          fromStrRadix8_lt hv
      _ ≤ 8 ^ bytes.length :=
          Nat.pow_le_pow_right (by decide) ((length_trimNulSpace_le _).trans hs)

/-- The size field is twelve bytes, so the size and its padded size stay
below `2 ^ 36`: with the position inside an archive that fits in memory,
neither `padded_size` nor `pos + size` wraps a `usize`. -/
theorem size_field_fits (utf8Valid : List Nat → Bool) (hdr : List Nat) :
    let size := parseOctal utf8Valid ((hdr.take 136).drop 124)
    size < 2 ^ 36 ∧ paddedSize size ≤ 2 ^ 36 := by
  intro size
  have hlen : ((hdr.take 136).drop 124).length ≤ 12 := by simp
  have hsize : size < 2 ^ 36 :=
    calc size < 8 ^ ((hdr.take 136).drop 124).length := parseOctal_lt utf8Valid _
      _ ≤ 8 ^ 12 := Nat.pow_le_pow_right (by decide) hlen
      _ = 2 ^ 36 := by norm_num
  refine ⟨hsize, ?_⟩
  unfold paddedSize
  omega

/-! ## The extraction loop -/

/-- The type flags whose entries are skipped: pax headers and GNU long
names. -/
def skippedTypeflag (t : Nat) : Bool := t = 0x78 || t = 0x67 || t = 0x4c || t = 0x4b

/-- The loop of `untar_in_memory` from `pos`, with the zero blocks just
seen. -/
def untarLoop (utf8Valid : List Nat → Bool) (targetDir data : List Nat) (pos zeroBlocks : Nat) :
    List TarAction :=
  if _h : pos + 512 ≤ data.length then
    let hdr := (data.take (pos + 512)).drop pos
    let pos := pos + 512
    if hdr.all (· = 0) then
      if zeroBlocks + 1 ≥ 2 then [] else untarLoop utf8Valid targetDir data pos (zeroBlocks + 1)
    else if !verifyHeaderChecksum utf8Valid hdr then []
    else
      let pathRaw := parseTarPath utf8Valid hdr
      let size := parseOctal utf8Valid ((hdr.take 136).drop 124)
      let typeflag := hdr.getD 156 0
      let next := pos + paddedSize size
      if skippedTypeflag typeflag then untarLoop utf8Valid targetDir data next 0
      else if pathRaw = [] ∨ pathRaw = [dot] then untarLoop utf8Valid targetDir data next 0
      else
        let path := stripDotSlash pathRaw
        if path = [] then untarLoop utf8Valid targetDir data next 0
        else
          let fullPath := joinPath targetDir path
          if typeflag = 0x35 ∨ endsWithSlash path then
            .mkdirP fullPath :: untarLoop utf8Valid targetDir data next 0
          else if typeflag = 0x32 then
            let linkTarget := extractStr utf8Valid ((hdr.take 257).drop 157)
            ensureParent fullPath ++ .symlink linkTarget fullPath ::
              untarLoop utf8Valid targetDir data next 0
          else if typeflag = 0x31 then
            let linkTarget := stripDotSlash (extractStr utf8Valid ((hdr.take 257).drop 157))
            ensureParent fullPath ++ .symlink (relativeSymlinkTarget path linkTarget) fullPath ::
              untarLoop utf8Valid targetDir data next 0
          else
            -- a regular file: the parent first, then the data, if it is all there
            if pos + size > data.length then ensureParent fullPath
            else
              ensureParent fullPath ++ .create fullPath ((data.take (pos + size)).drop pos) ::
                untarLoop utf8Valid targetDir data next 0
  else []
termination_by data.length - pos
decreasing_by all_goals omega

/-- `untar_in_memory` on the inflated archive. -/
def untarInMemory (utf8Valid : List Nat → Bool) (targetDir data : List Nat) : List TarAction :=
  untarLoop utf8Valid targetDir data 0 0

/-! ## Where a path leads -/

/-- A finished name of a path: `.` and the empty name stay where they are,
`..` goes up (not above the root), and any other name goes down. -/
def flushComponent (stack : List (List Nat)) (comp : List Nat) : List (List Nat) :=
  if comp = [] ∨ comp = [dot] then stack
  else if comp = [dot, dot] then stack.dropLast
  else stack ++ [comp]

/-- One byte of a path: a `/` ends the current name. -/
def resolveStep (st : List (List Nat) × List Nat) (c : Nat) : List (List Nat) × List Nat :=
  if c = slash then (flushComponent st.1 st.2, []) else (st.1, st.2 ++ [c])

/-- The names from the root that a path leads to, symlinks not followed. -/
def resolvePath (p : List Nat) : List (List Nat) :=
  Function.uncurry flushComponent (p.foldl resolveStep ([], []))

theorem foldl_resolveStep_of_not_mem {n : List Nat} (hn : slash ∉ n) (st : List (List Nat) × List Nat) :
    n.foldl resolveStep st = (st.1, st.2 ++ n) := by
  induction n generalizing st with
  | nil => simp
  | cons c n ih =>
    have hc : c ≠ slash := fun h => hn (h ▸ List.mem_cons_self)
    rw [List.foldl_cons, resolveStep, if_neg hc, ih (fun h => hn (List.mem_cons_of_mem _ h))]
    simp

/-- After a path and a `/`, the names so far are where the path leads. -/
theorem foldl_append_slash (t : List Nat) :
    (t ++ [slash]).foldl resolveStep ([], []) = (resolvePath t, []) := by
  rw [List.foldl_append, List.foldl_cons, List.foldl_nil, resolveStep, if_pos rfl]
  rfl

theorem resolvePath_append_slash (t : List Nat) : resolvePath (t ++ [slash]) = resolvePath t := by
  rw [resolvePath, foldl_append_slash]
  simp [flushComponent]

/-- A path that ends with `/` leaves no name open. -/
theorem foldl_of_endsWithSlash {t : List Nat} (ht : endsWithSlash t = true) :
    t.foldl resolveStep ([], []) = (resolvePath t, []) := by
  obtain ⟨t', rfl⟩ : ∃ t', t = t' ++ [slash] := by
    have hl : t.getLast? = some slash := by simpa [endsWithSlash] using ht
    exact ⟨t.dropLast, (List.dropLast_append_getLast? _ hl).symm⟩
  rw [foldl_append_slash, resolvePath_append_slash]

theorem joinPath_of_not_endsWithSlash {targetDir path : List Nat}
    (ht : endsWithSlash targetDir = false) (hp : startsWithSlash path = false) :
    joinPath targetDir path = targetDir ++ slash :: path := by
  simp [joinPath, ht, hp]

theorem joinPath_of_endsWithSlash {targetDir path : List Nat}
    (ht : endsWithSlash targetDir = true) (hp : startsWithSlash path = false) :
    joinPath targetDir path = targetDir ++ path := by
  simp [joinPath, ht, hp]

/-- A name `n` under `..` of the target directory leads beside it. -/
theorem resolvePath_joinPath_dotdot (targetDir n : List Nat) (hne : n ≠ [])
    (hslash : slash ∉ n) (hdot : n ≠ [dot]) (hdotdot : n ≠ [dot, dot]) :
    resolvePath (joinPath targetDir ([dot, dot, slash] ++ n)) =
      (resolvePath targetDir).dropLast ++ [n] := by
  have hstart : startsWithSlash ([dot, dot, slash] ++ n) = false := by
    simp [startsWithSlash, dot, slash]
  -- after the target directory and its `/`, `..` goes up, and `n` is the last name
  have hrest : ([dot, dot, slash] ++ n).foldl resolveStep (resolvePath targetDir, []) =
      ((resolvePath targetDir).dropLast, n) := by
    rw [List.foldl_append, foldl_resolveStep_of_not_mem hslash]
    simp [resolveStep, flushComponent, slash, dot]
  have hflush : flushComponent (resolvePath targetDir).dropLast n =
      (resolvePath targetDir).dropLast ++ [n] := by
    simp [flushComponent, hne, hdot, hdotdot]
  cases hend : endsWithSlash targetDir
  · rw [joinPath_of_not_endsWithSlash hend hstart, resolvePath,
      show targetDir ++ slash :: ([dot, dot, slash] ++ n) =
        (targetDir ++ [slash]) ++ ([dot, dot, slash] ++ n) by simp,
      List.foldl_append, foldl_append_slash, hrest]
    exact hflush
  · rw [joinPath_of_endsWithSlash hend hstart, resolvePath, List.foldl_append,
      foldl_of_endsWithSlash hend, hrest]
    exact hflush

/-! ## An entry named `../n` -/

theorem extractStr_of_zero {utf8Valid : List Nat → Bool} {bytes : List Nat}
    (h : ∀ b ∈ bytes, b = 0) : extractStr utf8Valid bytes = [] := by
  cases bytes with
  | nil => simp [extractStr]
  | cons b bs => simp [extractStr, h b List.mem_cons_self]

/-- A block of zeros has no name. -/
theorem parseTarPath_of_all_zero {utf8Valid : List Nat → Bool} {hdr : List Nat}
    (h : hdr.all (· = 0) = true) : parseTarPath utf8Valid hdr = [] := by
  have hz : ∀ b ∈ hdr, b = 0 := by simpa using h
  have hname : extractStr utf8Valid (hdr.take 100) = [] :=
    extractStr_of_zero fun b hb => hz b (List.mem_of_mem_take hb)
  have hpfx : extractStr utf8Valid ((hdr.take 500).drop 345) = [] :=
    extractStr_of_zero fun b hb => hz b (List.mem_of_mem_take (List.mem_of_mem_drop hb))
  unfold parseTarPath
  split_ifs <;> simp_all

theorem dotdot_entry_escapes (utf8Valid : List Nat → Bool) (targetDir hdr rest n : List Nat)
    (hlen : hdr.length = 512) (hsum : verifyHeaderChecksum utf8Valid hdr = true)
    (hpath : parseTarPath utf8Valid hdr = [dot, dot, slash] ++ n)
    (hsize : parseOctal utf8Valid ((hdr.take 136).drop 124) = 0) (htype : hdr.getD 156 0 = 0x30)
    (hne : n ≠ []) (hslash : slash ∉ n) (hdot : n ≠ [dot]) (hdotdot : n ≠ [dot, dot])
    (ht : resolvePath targetDir ≠ []) (hlast : (resolvePath targetDir).getLast? ≠ some n) :
    let full := joinPath targetDir ([dot, dot, slash] ++ n)
    .create full [] ∈ untarInMemory utf8Valid targetDir (hdr ++ rest) ∧
      ¬ resolvePath targetDir <+: resolvePath full := by
  intro full
  refine ⟨?_, ?_⟩
  · -- the first block is a regular file named `../n`, with no data
    have h0 : 0 + 512 ≤ (hdr ++ rest).length := by simp [hlen]
    have hblock : ((hdr ++ rest).take (0 + 512)).drop 0 = hdr := by
      simp [List.take_left' hlen]
    have hnz : hdr.all (· = 0) = false := by
      cases h : hdr.all (· = 0)
      · rfl
      · rw [parseTarPath_of_all_zero h] at hpath
        simp at hpath
    have hstrip : stripDotSlash ([dot, dot, slash] ++ n) = [dot, dot, slash] ++ n := by
      simp [stripDotSlash, dot, slash]
    have hdir : endsWithSlash ([dot, dot, slash] ++ n) = false := by
      have : n.getLast? ≠ some slash := fun h => hslash (List.mem_of_getLast? h)
      rw [endsWithSlash, List.getLast?_append_of_ne_nil _ hne]
      simpa using this
    have hdata : ((hdr ++ rest).take (0 + 512 + 0)).drop (0 + 512) = [] := by simp [hlen]
    rw [untarInMemory, untarLoop, dif_pos h0]
    simp only [hblock, hnz, hsum, hpath, hsize, htype, hstrip, hdir, hdata]
    simp [skippedTypeflag, paddedSize, dot, slash, hlen, full]
  · -- it resolves beside the target directory
    rw [resolvePath_joinPath_dotdot targetDir n hne hslash hdot hdotdot]
    intro hp
    have heq := hp.eq_of_length (by
      have := List.length_pos_of_ne_nil ht
      simp only [List.length_append, List.length_dropLast, List.length_singleton]
      omega)
    apply hlast
    rw [heq]
    simp

/-- A header named `../x` with no data and a right checksum, extracted into
`/tmp/out`: it creates `/tmp/out/../x`, which is `/tmp/x`. -/
theorem dotdot_entry_escapes_tmp_out :
    let utf8 : List Nat → Bool := fun s => s.all (· < 0x80)
    let t : List Nat := [0x2f, 0x74, 0x6d, 0x70, 0x2f, 0x6f, 0x75, 0x74]
    let hdr : List Nat := [dot, dot, slash, 0x78] ++ List.replicate 144 0 ++
      [0x30, 0x30, 0x31, 0x30, 0x36, 0x33, 0, 0x20] ++ [0x30] ++ List.replicate 355 0
    hdr.length = 512 ∧ verifyHeaderChecksum utf8 hdr = true ∧
      parseTarPath utf8 hdr = [dot, dot, slash] ++ [0x78] ∧
      parseOctal utf8 ((hdr.take 136).drop 124) = 0 ∧ hdr.getD 156 0 = 0x30 ∧
      [0x78] ≠ [] ∧ slash ∉ [0x78] ∧ [0x78] ≠ [dot] ∧ [0x78] ≠ [dot, dot] ∧
      resolvePath t ≠ [] ∧ (resolvePath t).getLast? ≠ some [0x78] ∧
      (.create (joinPath t ([dot, dot, slash] ++ [0x78])) [] ∈ untarInMemory utf8 t (hdr ++ []) ∧
        ¬ resolvePath t <+: resolvePath (joinPath t ([dot, dot, slash] ++ [0x78]))) := by
  intro utf8 t hdr
  have hlen : hdr.length = 512 := by decide +kernel
  have hsum : verifyHeaderChecksum utf8 hdr = true := by decide +kernel
  have hpath : parseTarPath utf8 hdr = [dot, dot, slash] ++ [0x78] := by decide +kernel
  have hsize : parseOctal utf8 ((hdr.take 136).drop 124) = 0 := by decide +kernel
  have htype : hdr.getD 156 0 = 0x30 := by decide +kernel
  have ht : resolvePath t ≠ [] := by decide
  have hlast : (resolvePath t).getLast? ≠ some [0x78] := by decide
  exact ⟨hlen, hsum, hpath, hsize, htype, by decide, by decide, by decide, by decide, ht, hlast,
    dotdot_entry_escapes utf8 t hdr [] [0x78] hlen hsum hpath hsize htype (by decide) (by decide)
      (by decide) (by decide) ht hlast⟩

end Akuma.Tar
