import Akuma.Git.Refs

/-!
# Clone

`repository::clone` discovers the refs of the remote (`discover_refs`),
checks that there is one and a ref to check out, and asks
`fetch_pack_streaming` for the SHA of every ref but `HEAD`, each once, with
the request `build_upload_pack_request` writes. Once the pack is stored it
writes the refs: a remote-tracking ref for each branch, a local branch for
`main` or `master`, a tag for each tag. It then points `HEAD` at `main`, or
at `master` when only that exists, and resolves it.

The wants are the distinct SHAs of the refs but `HEAD` (`mem_uniqueWants`,
`nodup_uniqueWants`); the request asks for a sideband exactly when the
server offers one, which is when the download demultiplexes
(`requestCaps_sideband`). After the refs are written, `HEAD` resolves to the
last advertised `refs/heads/main`, else to the last `refs/heads/master`,
and otherwise to whatever `refs/heads/main` held before the clone
(`resolveHead_after_writeRefs`). The connection, the directory setup, the
checkout of the working tree and the printing are left out.
-/

namespace Akuma.Git

open RustStr Files

/-! ## Discovery and the request -/

/-- `ProtocolClient::discover_refs` from the response on: its status, its
`Content-Type` header (`unwrap_or("")`) and its body. Following a redirect,
which only changes the URL, is left out. -/
def discoverRefs (status : Nat) (contentType : Option (List Char)) (body : List Nat) :
    Except String (List RemoteRef × ServerCapabilities) :=
  if status ≠ 200 then .error ("status " ++ Nat.repr status)
  else if !containsText "x-git-upload-pack-advertisement".toList (contentType.getD []) then
    .error "not a smart Git server"
  else parseRefDiscovery body

/-- The capabilities `build_upload_pack_request` asks for on its first want
line: `multi_ack`, the larger sideband the server offers, `ofs-delta` if
offered, and the agent. -/
def requestCaps (caps : ServerCapabilities) : List Char :=
  "multi_ack".toList ++
    (if caps.sideBand64k then " side-band-64k".toList else if caps.sideBand then " side-band".toList else []) ++
    (if caps.ofsDelta then " ofs-delta".toList else []) ++ " agent=scratch/1.0".toList

/-- A want line of `build_upload_pack_request`; the first carries the
capabilities. -/
def wantLine (capsStr : List Char) (i : Nat) (want : Sha1Hash) : List Char :=
  if i = 0 then "want ".toList ++ Sha1.toHex want ++ ' ' :: capsStr ++ ['\n']
  else "want ".toList ++ Sha1.toHex want ++ ['\n']

/-- `build_upload_pack_request`: the want lines, a flush, the have lines and
`done`, each a pkt-line. -/
def buildUploadPackRequest (wants haves : List Sha1Hash) (caps : ServerCapabilities) : List Nat :=
  let capsStr := requestCaps caps
  (wants.mapIdx fun i want => writePktLine (asBytes (wantLine capsStr i want))).flatten ++ writeFlush ++
    (haves.map fun sha => writePktLine (asBytes ("have ".toList ++ Sha1.toHex sha ++ ['\n']))).flatten ++
    writePktLine (asBytes "done\n".toList)

/-! ## What `clone` asks for -/

/-- The ref `clone` reports as `HEAD`: the ref named `HEAD`, else
`refs/heads/main`, else `refs/heads/master`. -/
def headRef (refs : List RemoteRef) : Except String RemoteRef :=
  match ((refs.find? (·.name = "HEAD".toList)).or (refs.find? (·.name = "refs/heads/main".toList))).or
      (refs.find? (·.name = "refs/heads/master".toList)) with
  | some r => .ok r
  | none => .error "no HEAD or main branch found"

/-- `wants` of `clone`: the SHA of every ref but `HEAD`, which is symbolic. -/
def cloneWants (refs : List RemoteRef) : List Sha1Hash :=
  (refs.filter (·.name ≠ "HEAD".toList)).map (·.sha)

/-- A step of the loop that builds `unique_wants`: a want not yet there goes
at the end. -/
def pushUnique (unique : List Sha1Hash) (want : Sha1Hash) : List Sha1Hash :=
  if unique.contains want then unique else unique ++ [want]

/-- `unique_wants` of `clone`. -/
def uniqueWants (wants : List Sha1Hash) : List Sha1Hash := wants.foldl pushUnique []

/-- The request asks for a sideband exactly when the server offers one,
which is when `fetch_pack_streaming` runs the download through the
demultiplexer. -/
theorem requestCaps_sideband (caps : ServerCapabilities) :
    ("side-band".toList ∈ (requestCaps caps).splitOn ' ' ∨ "side-band-64k".toList ∈ (requestCaps caps).splitOn ' ') ↔
      (caps.sideBand || caps.sideBand64k) = true := by
  obtain ⟨⟨sb, sb64⟩, ofs⟩ := caps
  cases sb <;> cases sb64 <;> cases ofs <;> decide

theorem mem_pushUnique {unique : List Sha1Hash} {want w : Sha1Hash} :
    w ∈ pushUnique unique want ↔ w ∈ unique ∨ w = want := by
  unfold pushUnique
  split_ifs with h
  · have hwant : want ∈ unique := List.contains_iff_mem.mp h
    constructor
    · exact Or.inl
    · rintro (hw | rfl)
      · exact hw
      · exact hwant
  · simp

theorem nodup_pushUnique {unique : List Sha1Hash} (h : unique.Nodup) (want : Sha1Hash) :
    (pushUnique unique want).Nodup := by
  unfold pushUnique
  split_ifs with hin
  · exact h
  · have hwant : want ∉ unique := fun hw => hin (List.contains_iff_mem.mpr hw)
    refine List.nodup_append.mpr ⟨h, List.nodup_singleton want, fun a ha b hb hab => ?_⟩
    rw [List.mem_singleton] at hb
    exact hwant (hb ▸ hab ▸ ha)

/-- The loop keeps what it started with and adds each want. -/
theorem mem_foldl_pushUnique {w : Sha1Hash} :
    ∀ (wants acc : List Sha1Hash), w ∈ wants.foldl pushUnique acc ↔ w ∈ acc ∨ w ∈ wants
  | [], acc => by simp
  | want :: wants, acc => by
    rw [List.foldl_cons, mem_foldl_pushUnique wants, mem_pushUnique, List.mem_cons]
    tauto

theorem nodup_foldl_pushUnique :
    ∀ (wants acc : List Sha1Hash), acc.Nodup → (wants.foldl pushUnique acc).Nodup
  | [], _, h => h
  | want :: wants, _, h => nodup_foldl_pushUnique wants _ (nodup_pushUnique h want)

/-- Every want is asked for. -/
theorem mem_uniqueWants {wants : List Sha1Hash} {w : Sha1Hash} : w ∈ uniqueWants wants ↔ w ∈ wants := by
  rw [uniqueWants, mem_foldl_pushUnique]
  simp

/-- No want is asked for twice. -/
theorem nodup_uniqueWants (wants : List Sha1Hash) : (uniqueWants wants).Nodup :=
  nodup_foldl_pushUnique wants [] List.nodup_nil

/-! ## The refs `clone` writes -/

section WriteRefs

variable {σ : Type} (fs : FileSystem σ String) (gitDir : List Char)

/-- The body of the loop of `clone` over the remote refs: `HEAD` is skipped,
a branch gets its remote-tracking ref and, for `main` or `master`, a local
branch, a tag gets its tag, and any other ref nothing. -/
def cloneRef (s : σ) (r : RemoteRef) : Except String σ :=
  if r.name = "HEAD".toList then .ok s
  else
    match stripPrefix "refs/heads/".toList r.name with
    | some branchName => do
      let s ← RefManager.writeRemoteRef fs gitDir s "origin".toList branchName r.sha
      if branchName = "main".toList ∨ branchName = "master".toList then
        RefManager.writeBranch fs gitDir s branchName r.sha
      else pure s
    | none =>
      match stripPrefix "refs/tags/".toList r.name with
      | some tagName => RefManager.writeTag fs gitDir s tagName r.sha
      | none => .ok s

/-- `default_branch` of `clone`: `main` if the remote has it, else `master`
if it has that, else `main`. -/
def defaultBranch (refs : List RemoteRef) : List Char :=
  match ((refs.find? (·.name = "refs/heads/main".toList)).map fun _ => "main".toList).or
      ((refs.find? (·.name = "refs/heads/master".toList)).map fun _ => "master".toList) with
  | some branch => branch
  | none => "main".toList

/-- What `clone` does with the refs once the pack is stored: the ref
directories, a ref for each remote ref, `HEAD` at the default branch, and
the commit `HEAD` resolves to. -/
def writeRefs (s : σ) (refs : List RemoteRef) : Except String (σ × Sha1Hash) := do
  let s := RefManager.init fs gitDir s
  let s ← refs.foldlM (cloneRef fs gitDir) s
  let s ← RefManager.setHeadBranch fs gitDir s (defaultBranch refs)
  let headCommitSha ← RefManager.resolveHead fs gitDir s
  pure (s, headCommitSha)

end WriteRefs

/-! ## Where `HEAD` points after a clone -/

/-- The last of `refs` named `name`, if one is. -/
def lastNamed (name : List Char) : List RemoteRef → Option RemoteRef
  | [] => none
  | r :: rs => (lastNamed name rs).or (if r.name = name then some r else none)

theorem lastNamed_eq_none {name : List Char} :
    ∀ {refs : List RemoteRef}, lastNamed name refs = none ↔ ∀ r ∈ refs, r.name ≠ name
  | [] => by simp [lastNamed]
  | r :: rs => by
    rw [lastNamed, Option.or_eq_none_iff, lastNamed_eq_none, List.forall_mem_cons]
    by_cases hr : r.name = name <;> simp [hr]

theorem lastNamed_mem {name : List Char} :
    ∀ {refs : List RemoteRef} {r : RemoteRef}, lastNamed name refs = some r → r ∈ refs ∧ r.name = name
  | [], _, h => by cases h
  | r' :: rs, r, h => by
    rw [lastNamed] at h
    cases hrs : lastNamed name rs with
    | some r'' =>
      rw [hrs, Option.some_or] at h
      cases h
      obtain ⟨hmem, hname⟩ := lastNamed_mem hrs
      exact ⟨List.mem_cons_of_mem _ hmem, hname⟩
    | none =>
      rw [hrs, Option.none_or] at h
      split_ifs at h with hname
      cases h
      exact ⟨List.mem_cons_self, hname⟩

theorem find?_name_eq_none {name : List Char} {refs : List RemoteRef} :
    refs.find? (·.name = name) = none ↔ lastNamed name refs = none := by
  rw [lastNamed_eq_none, List.find?_eq_none]
  simp

theorem lastNamed_isSome {name : List Char} {refs : List RemoteRef} {r : RemoteRef}
    (h : refs.find? (·.name = name) = some r) : (lastNamed name refs).isSome := by
  rw [Option.isSome_iff_ne_none]
  intro hnone
  rw [← find?_name_eq_none, h] at hnone
  cases hnone

/-- `default_branch` is `main` when the remote has it, else `master` when it
has that, else `main`. -/
theorem defaultBranch_eq (refs : List RemoteRef) :
    defaultBranch refs =
      if (lastNamed "refs/heads/main".toList refs).isSome then "main".toList
      else if (lastNamed "refs/heads/master".toList refs).isSome then "master".toList
      else "main".toList := by
  unfold defaultBranch
  cases hmain : refs.find? (·.name = "refs/heads/main".toList) with
  | some r =>
    rw [if_pos (lastNamed_isSome hmain)]
    rfl
  | none =>
    rw [find?_name_eq_none.mp hmain, Option.map_none, Option.none_or]
    cases hmaster : refs.find? (·.name = "refs/heads/master".toList) with
    | some r =>
      rw [if_neg (by simp), if_pos (lastNamed_isSome hmaster)]
      rfl
    | none =>
      rw [find?_name_eq_none.mp hmaster]
      rfl

section HeadAfterClone

variable {σ : Type} {fs : FileSystem σ String} (gitDir : List Char)

/-- A local branch's file is no remote-tracking ref's. -/
theorem heads_ne_remotes (b x : List Char) :
    gitDir ++ "/refs/".toList ++ "heads".toList ++ '/' :: b ≠
      gitDir ++ "/refs/remotes/".toList ++ "origin".toList ++ '/' :: x := by
  simp

/-- A local branch's file is no tag's. -/
theorem heads_ne_tags (b t : List Char) :
    gitDir ++ "/refs/".toList ++ "heads".toList ++ '/' :: b ≠ gitDir ++ "/refs/".toList ++ "tags".toList ++ '/' :: t := by
  simp

/-- One ref of the loop, seen from the file of `main` or `master`: only a ref
of that name writes it. -/
theorem read_cloneRef (hfs : fs.Lawful) {b : List Char} (hb : b = "main".toList ∨ b = "master".toList)
    {s s' : σ} {r : RemoteRef} (h : cloneRef fs gitDir s r = .ok s') :
    fs.read s' (gitDir ++ "/refs/".toList ++ "heads".toList ++ '/' :: b) =
      if r.name = "refs/heads/".toList ++ b then some (asBytes (Sha1.toHex r.sha ++ ['\n']))
      else fs.read s (gitDir ++ "/refs/".toList ++ "heads".toList ++ '/' :: b) := by
  unfold cloneRef at h
  split_ifs at h with hhead
  · -- `HEAD` writes nothing
    cases h
    have hne : r.name ≠ "refs/heads/".toList ++ b := by
      rw [hhead]
      simp
    rw [if_neg hne]
  · split at h
    · rename_i branchName hbranch
      have hname := eq_of_stripPrefix hbranch
      simp only [bind, Except.bind] at h
      cases hremote : RefManager.writeRemoteRef fs gitDir s "origin".toList branchName r.sha with
      | error e =>
        rw [hremote] at h
        cases h
      | ok s₁ =>
        rw [hremote] at h
        dsimp only at h
        -- the remote-tracking ref lives under `refs/remotes`
        have h₁ : fs.read s₁ (gitDir ++ "/refs/".toList ++ "heads".toList ++ '/' :: b) =
            fs.read s (gitDir ++ "/refs/".toList ++ "heads".toList ++ '/' :: b) := by
          rw [read_writeRemoteRef gitDir hfs hremote, if_neg (heads_ne_remotes gitDir b branchName)]
        split_ifs at h with hmain
        · rw [read_writeRefIn gitDir hfs h, h₁, hname]
          by_cases hbb : branchName = b
          · rw [hbb, if_pos rfl, if_pos rfl]
          · rw [if_neg (fun heq => hbb (List.cons.inj (List.append_cancel_left heq)).2.symm),
              if_neg (fun heq => hbb (List.append_cancel_left heq))]
        · cases h
          rw [h₁, hname, if_neg]
          intro heq
          have : branchName = b := List.append_cancel_left heq
          rcases hb with rfl | rfl
          · exact hmain (Or.inl this)
          · exact hmain (Or.inr this)
    · rename_i hnot
      split at h
      · rename_i tagName htag
        have hname := eq_of_stripPrefix htag
        have hne : "refs/tags/".toList ++ tagName ≠ "refs/heads/".toList ++ b := by
          simp
        rw [read_writeRefIn gitDir hfs h, if_neg (heads_ne_tags gitDir b tagName), hname, if_neg hne]
      · cases h
        rw [if_neg]
        intro heq
        rw [heq, stripPrefix_append] at hnot
        cases hnot

/-- After the loop, the file of `main` or `master` holds the SHA of the last
ref of that name, or what it held before. -/
theorem read_foldlM_cloneRef (hfs : fs.Lawful) {b : List Char} (hb : b = "main".toList ∨ b = "master".toList) :
    ∀ (refs : List RemoteRef) {s s' : σ}, refs.foldlM (cloneRef fs gitDir) s = .ok s' →
      fs.read s' (gitDir ++ "/refs/".toList ++ "heads".toList ++ '/' :: b) =
        ((lastNamed ("refs/heads/".toList ++ b) refs).map fun r => asBytes (Sha1.toHex r.sha ++ ['\n'])).or
          (fs.read s (gitDir ++ "/refs/".toList ++ "heads".toList ++ '/' :: b))
  | [], s, s', h => by
    cases h
    rfl
  | r :: rs, s, s', h => by
    rw [List.foldlM_cons] at h
    cases hr : cloneRef fs gitDir s r with
    | error e =>
      rw [hr] at h
      cases h
    | ok s₁ =>
      rw [hr] at h
      -- the later refs first, then this one
      rw [read_foldlM_cloneRef hfs hb rs h, read_cloneRef gitDir hfs hb hr, lastNamed]
      generalize "refs/heads/".toList ++ b = name at *
      cases lastNamed name rs with
      | some r' => rfl
      | none =>
        by_cases hname : r.name = name
        · rw [if_pos hname, if_pos hname]
          rfl
        · rw [if_neg hname, if_neg hname]
          rfl

/-- The directories `init` makes change no file. -/
theorem read_init (hfs : fs.Lawful) (s : σ) (q : List Char) :
    fs.read (RefManager.init fs gitDir s) q = fs.read s q := by
  simp only [RefManager.init, hfs.read_mkdir]

/-- After the loop, `main` or `master` resolves to the SHA of the last ref of
that name, or as it did before the clone. -/
theorem readBranch_after_loop (hfs : fs.Lawful) {refs : List RemoteRef} (hrefs : ∀ r ∈ refs, Sha1.IsHash r.sha)
    {b : List Char} (hb : b = "main".toList ∨ b = "master".toList) {s s₁ : σ}
    (hloop : refs.foldlM (cloneRef fs gitDir) (RefManager.init fs gitDir s) = .ok s₁) :
    RefManager.readBranch fs gitDir s₁ b =
      match lastNamed ("refs/heads/".toList ++ b) refs with
      | some r => .ok r.sha
      | none => RefManager.readBranch fs gitDir s b := by
  have hread := read_foldlM_cloneRef gitDir hfs hb refs hloop
  rw [read_init gitDir hfs, refIn_path] at hread
  unfold RefManager.readBranch RefManager.readRefIn
  cases hl : lastNamed ("refs/heads/".toList ++ b) refs with
  | some r =>
    rw [hl] at hread
    exact resolveRef_of_read gitDir (hrefs r (lastNamed_mem hl).1) hread
  | none =>
    rw [hl] at hread
    exact resolveRef_congr gitDir hread

/-- Where `HEAD` points once `clone` has written the refs: at the last
advertised `refs/heads/main`, else at the last `refs/heads/master`, and when
the remote has neither, at whatever `refs/heads/main` held before. -/
theorem resolveHead_after_writeRefs (hfs : fs.Lawful) {refs : List RemoteRef}
    (hrefs : ∀ r ∈ refs, Sha1.IsHash r.sha) {s s₁ s₂ : σ}
    (hloop : refs.foldlM (cloneRef fs gitDir) (RefManager.init fs gitDir s) = .ok s₁)
    (hhead : RefManager.setHeadBranch fs gitDir s₁ (defaultBranch refs) = .ok s₂) :
    RefManager.resolveHead fs gitDir s₂ =
      match lastNamed "refs/heads/main".toList refs, lastNamed "refs/heads/master".toList refs with
      | some r, _ => .ok r.sha
      | none, some r => .ok r.sha
      | none, none => RefManager.readBranch fs gitDir s "main".toList := by
  have hdef := defaultBranch_eq refs
  have hws : ∀ c ∈ (defaultBranch refs).getLast?, isWhitespace c = false := by
    have hn : "main".toList.getLast? = some 'n' := by simp
    have hr : "master".toList.getLast? = some 'r' := by simp
    rw [hdef]
    split_ifs <;> simp only [hn, hr, Option.mem_some_iff] <;> rintro c rfl <;> decide
  rw [resolveHead_setHeadBranch gitDir hfs hws hhead]
  -- `HEAD` is not the branch's file
  have hcongr : ∀ b, RefManager.readBranch fs gitDir s₂ b = RefManager.readBranch fs gitDir s₁ b := by
    intro b
    have hpath : gitDir ++ '/' :: ("refs/".toList ++ "heads".toList ++ '/' :: b) ≠ gitDir ++ "/HEAD".toList := by
      simp
    exact resolveRef_congr gitDir (by rw [hfs.read_write hhead, if_neg hpath])
  have hmain : "refs/heads/main".toList = "refs/heads/".toList ++ "main".toList := by simp
  have hmaster : "refs/heads/master".toList = "refs/heads/".toList ++ "master".toList := by simp
  rw [hcongr]
  cases hm : lastNamed "refs/heads/main".toList refs with
  | some r =>
    rw [hdef, if_pos (by rw [hm]; rfl), readBranch_after_loop gitDir hfs hrefs (Or.inl rfl) hloop, ← hmain, hm]
  | none =>
    cases hM : lastNamed "refs/heads/master".toList refs with
    | some r =>
      rw [hdef, if_neg (by rw [hm]; decide), if_pos (by rw [hM]; rfl),
        readBranch_after_loop gitDir hfs hrefs (Or.inr rfl) hloop, ← hmaster, hM]
    | none =>
      rw [hdef, if_neg (by rw [hm]; decide), if_neg (by rw [hM]; decide),
        readBranch_after_loop gitDir hfs hrefs (Or.inl rfl) hloop, ← hmain, hm]

end HeadAfterClone

end Akuma.Git
