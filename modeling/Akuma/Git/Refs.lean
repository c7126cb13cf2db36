import Akuma.Lib.Files
import Akuma.Git.Discovery

/-!
# Refs

`RefManager` of `refs.rs` keeps the refs of a repository as files under its
`.git` directory: a branch `b` is the file `refs/heads/b` and a tag `t` the
file `refs/tags/t`, each holding a SHA in hex and a newline, and `HEAD`
holds `ref: refs/heads/b` or a SHA. The files are reached through a
`Files.FileSystem` with `String` errors: `read_file_content` reads a file
whole and checks that it is UTF-8, `write_file_content` is the file
system's write of the text's octets. Listing a directory
(`list_refs_in_dir`) is left out.

Branches and tags are one family: `readRefIn` and `writeRefIn` take the
directory under `refs/`. What is written reads back on a file system that
reads back what it wrote: a ref written with a SHA resolves to it
(`readRefIn_writeRefIn`), and a `HEAD` set to a branch resolves through the
branch (`resolveHead_setHeadBranch`).
-/

namespace Akuma.Git

open RustStr Files

section RefManager

variable {σ : Type} (fs : FileSystem σ String) (gitDir : List Char)

/-- `read_file_content`: the whole file, which must be UTF-8. A file that
cannot be opened is a missing `HEAD`, so no repository, or a ref not found,
named by its path. -/
def readFileContent (s : σ) (path : List Char) : Except String (List Char) :=
  match fs.read s path with
  | none =>
    if "/HEAD".toList.isSuffixOf path || path == ".git/HEAD".toList then .error "not a git repository"
    else .error (String.ofList path)
  | some data =>
    match utf8Decode data with
    | none => .error "file not valid UTF-8"
    | some text => .ok text

/-- `write_file_content`: the file system's write of the text's octets. -/
def writeFileContent (s : σ) (path content : List Char) : Except String σ :=
  fs.write s path (asBytes content)

/-- `RefManager::init`: the four directories, whatever `mkdir` returns. -/
def RefManager.init (s : σ) : σ :=
  let s := fs.mkdir s (gitDir ++ "/refs".toList)
  let s := fs.mkdir s (gitDir ++ "/refs/heads".toList)
  let s := fs.mkdir s (gitDir ++ "/refs/tags".toList)
  fs.mkdir s (gitDir ++ "/refs/remotes".toList)

/-- `RefManager::read_head`: `HEAD`, or `head` when that cannot be read. -/
def RefManager.readHead (s : σ) : Except String (List Char) :=
  match readFileContent fs s (gitDir ++ "/HEAD".toList) with
  | .ok content => .ok content
  | .error _ => readFileContent fs s (gitDir ++ "/head".toList)

/-- `RefManager::write_head`. -/
def RefManager.writeHead (s : σ) (content : List Char) : Except String σ :=
  writeFileContent fs s (gitDir ++ "/HEAD".toList) content

/-- `RefManager::set_head_branch`. -/
def RefManager.setHeadBranch (s : σ) (branch : List Char) : Except String σ :=
  RefManager.writeHead fs gitDir s ("ref: refs/heads/".toList ++ branch ++ ['\n'])

/-- `RefManager::set_head_detached`. -/
def RefManager.setHeadDetached (s : σ) (sha : Sha1Hash) : Except String σ :=
  RefManager.writeHead fs gitDir s (Sha1.toHex sha ++ ['\n'])

/-- `RefManager::resolve_ref`: the SHA in the file at `ref_path`, spaces
around it trimmed. -/
def RefManager.resolveRef (s : σ) (refPath : List Char) : Except String Sha1Hash := do
  let content ← readFileContent fs s (gitDir ++ '/' :: refPath)
  let shaHex := trim content
  match Sha1.fromHex shaHex with
  | some sha => pure sha
  | none => throw "invalid SHA in ref"

/-- `RefManager::resolve_head`: through the ref `HEAD` names, or the SHA it
holds. -/
def RefManager.resolveHead (s : σ) : Except String Sha1Hash := do
  let head ← RefManager.readHead fs gitDir s
  let head := trim head
  match stripPrefix "ref: ".toList head with
  | some refPath => RefManager.resolveRef fs gitDir s refPath
  | none =>
    match Sha1.fromHex head with
    | some sha => pure sha
    | none => throw "invalid SHA in HEAD"

/-- The reader of `read_branch` and `read_tag`: the ref `name` of the
directory `kind` under `refs/`. -/
def RefManager.readRefIn (kind : List Char) (s : σ) (name : List Char) : Except String Sha1Hash :=
  RefManager.resolveRef fs gitDir s ("refs/".toList ++ kind ++ '/' :: name)

/-- The writer of `write_branch` and `write_tag`: the SHA in hex and a
newline, at `refs/kind/name`. -/
def RefManager.writeRefIn (kind : List Char) (s : σ) (name : List Char) (sha : Sha1Hash) : Except String σ :=
  writeFileContent fs s (gitDir ++ "/refs/".toList ++ kind ++ '/' :: name) (Sha1.toHex sha ++ ['\n'])

/-- `RefManager::read_branch`. -/
def RefManager.readBranch (s : σ) (name : List Char) : Except String Sha1Hash :=
  RefManager.readRefIn fs gitDir "heads".toList s name

/-- `RefManager::write_branch`. -/
def RefManager.writeBranch (s : σ) (name : List Char) (sha : Sha1Hash) : Except String σ :=
  RefManager.writeRefIn fs gitDir "heads".toList s name sha

/-- `RefManager::read_tag`. -/
def RefManager.readTag (s : σ) (name : List Char) : Except String Sha1Hash :=
  RefManager.readRefIn fs gitDir "tags".toList s name

/-- `RefManager::write_tag`. -/
def RefManager.writeTag (s : σ) (name : List Char) (sha : Sha1Hash) : Except String σ :=
  RefManager.writeRefIn fs gitDir "tags".toList s name sha

/-- `RefManager::delete_branch_ref`: the branch must resolve, and then
nothing is deleted. -/
def RefManager.deleteBranchRef (s : σ) (name : List Char) : Except String Unit := do
  let _ ← RefManager.readBranch fs gitDir s name
  throw "file deletion not yet supported"

/-- `RefManager::delete_tag_ref`. -/
def RefManager.deleteTagRef (s : σ) (name : List Char) : Except String Unit := do
  let _ ← RefManager.readTag fs gitDir s name
  throw "file deletion not yet supported"

/-- `RefManager::write_remote_ref`: the remote's directory, whatever `mkdir`
returns, then the ref in it. -/
def RefManager.writeRemoteRef (s : σ) (remote refName : List Char) (sha : Sha1Hash) : Except String σ :=
  let dir := gitDir ++ "/refs/remotes/".toList ++ remote
  let s := fs.mkdir s dir
  writeFileContent fs s (dir ++ '/' :: refName) (Sha1.toHex sha ++ ['\n'])

/-- `create_branch`: a branch at the commit `HEAD` resolves to. -/
def createBranch (s : σ) (name : List Char) : Except String σ := do
  let headSha ← RefManager.resolveHead fs gitDir s
  RefManager.writeBranch fs gitDir s name headSha

/-- `create_tag`: a tag at the commit `HEAD` resolves to. -/
def createTag (s : σ) (name : List Char) : Except String σ := do
  let headSha ← RefManager.resolveHead fs gitDir s
  RefManager.writeTag fs gitDir s name headSha

end RefManager

/-! ## What is written reads back -/

section ReadBack

variable {σ : Type} {fs : FileSystem σ String} (gitDir : List Char)

/-- A digit of `to_hex` is not whitespace, nor the `r` of `ref: `. -/
theorem toHex_not_whitespace {hash : Sha1Hash} {c : Char} (hc : c ∈ Sha1.toHex hash) :
    isWhitespace c = false ∧ c ≠ 'r' := by
  have key : Sha1.hexChars.all (fun c => !isWhitespace c && decide (c ≠ 'r')) = true := by decide
  simpa using List.all_eq_true.mp key c (Sha1.mem_toHex hc)

/-- A SHA in hex with a newline after it trims to the hex. -/
theorem trim_toHex (hash : Sha1Hash) : trim (Sha1.toHex hash ++ ['\n']) = Sha1.toHex hash :=
  trim_append_newline (fun _ hc => (toHex_not_whitespace (List.mem_of_mem_head? hc)).1)
    (fun _ hc => (toHex_not_whitespace (List.mem_of_mem_getLast? hc)).1)

/-- A file whose bytes are those of a text reads as the text. -/
theorem readFileContent_of_read {s : σ} {path text : List Char} (h : fs.read s path = some (asBytes text)) :
    readFileContent fs s path = .ok text := by
  rw [readFileContent, h]
  simp only [utf8Decode_asBytes]

/-- A text written reads back. -/
theorem readFileContent_writeFileContent (hfs : fs.Lawful) {s s' : σ} {path content : List Char}
    (h : writeFileContent fs s path content = .ok s') : readFileContent fs s' path = .ok content :=
  readFileContent_of_read (hfs.read_write_self h)

/-- `resolve_ref` reads one file: two states that agree on it resolve the ref
alike. -/
theorem resolveRef_congr {s s' : σ} {refPath : List Char}
    (h : fs.read s (gitDir ++ '/' :: refPath) = fs.read s' (gitDir ++ '/' :: refPath)) :
    RefManager.resolveRef fs gitDir s refPath = RefManager.resolveRef fs gitDir s' refPath := by
  unfold RefManager.resolveRef readFileContent
  rw [h]

/-- A ref file that holds a SHA in hex and a newline resolves to the SHA. -/
theorem resolveRef_of_read {s : σ} {refPath : List Char} {sha : Sha1Hash} (hsha : Sha1.IsHash sha)
    (h : fs.read s (gitDir ++ '/' :: refPath) = some (asBytes (Sha1.toHex sha ++ ['\n']))) :
    RefManager.resolveRef fs gitDir s refPath = .ok sha := by
  rw [RefManager.resolveRef, readFileContent_of_read h]
  simp only [bind, Except.bind, trim_toHex, Sha1.fromHex_toHex hsha]
  rfl

/-- The file `write_branch` and `write_tag` write is the one `read_branch`
and `read_tag` read. -/
theorem refIn_path (kind name : List Char) :
    gitDir ++ "/refs/".toList ++ kind ++ '/' :: name = gitDir ++ '/' :: ("refs/".toList ++ kind ++ '/' :: name) := by
  simp

/-- What a read sees after `write_branch` or `write_tag`. -/
theorem read_writeRefIn (hfs : fs.Lawful) {kind name : List Char} {s s' : σ} {sha : Sha1Hash}
    (h : RefManager.writeRefIn fs gitDir kind s name sha = .ok s') (q : List Char) :
    fs.read s' q = if q = gitDir ++ "/refs/".toList ++ kind ++ '/' :: name then
      some (asBytes (Sha1.toHex sha ++ ['\n'])) else fs.read s q :=
  hfs.read_write h q

/-- What a read sees after `write_remote_ref`: its directory changes no
file. -/
theorem read_writeRemoteRef (hfs : fs.Lawful) {remote refName : List Char} {s s' : σ} {sha : Sha1Hash}
    (h : RefManager.writeRemoteRef fs gitDir s remote refName sha = .ok s') (q : List Char) :
    fs.read s' q = if q = gitDir ++ "/refs/remotes/".toList ++ remote ++ '/' :: refName then
      some (asBytes (Sha1.toHex sha ++ ['\n'])) else fs.read s q := by
  rw [hfs.read_write h q, hfs.read_mkdir]

/-- A branch or a tag written with a SHA resolves to it. -/
theorem readRefIn_writeRefIn (hfs : fs.Lawful) {kind name : List Char} {s s' : σ} {sha : Sha1Hash}
    (hsha : Sha1.IsHash sha) (h : RefManager.writeRefIn fs gitDir kind s name sha = .ok s') :
    RefManager.readRefIn fs gitDir kind s' name = .ok sha :=
  resolveRef_of_read gitDir hsha (by rw [← refIn_path]; exact hfs.read_write_self h)

/-- A `HEAD` that was written reads back, from `HEAD` itself. -/
theorem readHead_writeHead (hfs : fs.Lawful) {s s' : σ} {content : List Char}
    (h : RefManager.writeHead fs gitDir s content = .ok s') : RefManager.readHead fs gitDir s' = .ok content := by
  rw [RefManager.readHead, readFileContent_writeFileContent hfs h]

/-- `HEAD` set to a branch resolves through the branch, whatever the branch
holds, when its name does not end in whitespace. -/
theorem resolveHead_setHeadBranch (hfs : fs.Lawful) {s s' : σ} {branch : List Char}
    (hbranch : ∀ c ∈ branch.getLast?, isWhitespace c = false)
    (h : RefManager.setHeadBranch fs gitDir s branch = .ok s') :
    RefManager.resolveHead fs gitDir s' = RefManager.readBranch fs gitDir s' branch := by
  have hlast : ∀ c ∈ ("ref: refs/heads/".toList ++ branch).getLast?, isWhitespace c = false := by
    intro c hc
    rw [List.getLast?_append] at hc
    cases hb : branch.getLast? with
    | none =>
      rw [hb, Option.none_or] at hc
      have hslash : "ref: refs/heads/".toList.getLast? = some '/' := by simp
      rw [hslash, Option.mem_some_iff] at hc
      subst hc
      decide
    | some x =>
      rw [hb, Option.some_or, Option.mem_some_iff] at hc
      subst hc
      exact hbranch _ hb
  have htrim : trim ("ref: refs/heads/".toList ++ branch ++ ['\n']) = "ref: refs/heads/".toList ++ branch :=
    trim_append_newline (by simp [isWhitespace]) hlast
  -- `ref: ` comes off, and what is left is the branch's path under `.git`
  have hstrip : stripPrefix "ref: ".toList ("ref: refs/heads/".toList ++ branch) =
      some ("refs/".toList ++ "heads".toList ++ '/' :: branch) := by
    rw [show "ref: refs/heads/".toList = "ref: ".toList ++ ("refs/".toList ++ "heads".toList ++ ['/']) by simp,
      List.append_assoc, stripPrefix_append]
    simp
  rw [RefManager.resolveHead, readHead_writeHead gitDir hfs h]
  simp only [bind, Except.bind, htrim, hstrip]
  rfl

end ReadBack

end Akuma.Git
