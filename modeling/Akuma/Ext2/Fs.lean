import Akuma.Ext2.Dir

/-!
# The ext2 filesystem operations

The `Filesystem` methods of `Ext2Filesystem` (`akuma-ext2/src/ext2.rs`)
over the directory, inode and allocation layers: reading and writing
files, creating and removing directories, files and symlinks, and
`rename`. The read and write locks the source takes around each part do
not appear: the model runs one operation at a time.

The operations compose the layers below without any check of their own on
what a name or an inode is: `add_dir_entry` stores `name.len() as u8`,
`write_file` truncates whatever inode the path names, and `rename` removes
the destination before it links the source, recomputing the entry's file
type from the inode with only the directory and regular-file cases. The
theorems after `freshImage` follow each of these through a freshly
formatted image.
-/

namespace Akuma.Ext2

open Akuma.Vfs ByteCodec StateRun

/-- The result of a computation, caught: what `match` on a `Result` sees. -/
def attempt {α : Type} (x : Ext2M α) : Ext2M (Except FsError α) :=
  tryCatch (Except.ok <$> x) fun e => pure (.error e)

/-- `Metadata`, without the time stamps. -/
structure Metadata where
  isDir : Bool
  size : Nat
  inode : Nat
  mode : Nat
  deriving DecidableEq, Repr

/-! ## Reading -/

/-- `read_dir`: the live entries other than `.` and `..`, classified by the
file type of the entry; the size is the inode's, and `0` for a directory or
an inode that cannot be read. -/
def readDir (path : Path) : Ext2M (List DirEntry) := do
  let inodeNum ← lookupPathInternal path
  let inode ← readInode inodeNum
  if inode.kind ≠ sIfdir then throw .notADirectory
  let dirData ← readInodeData inode
  let raw := (parseDirectory dirData).filter fun (n, name, _) =>
    n ≠ 0 ∧ name ≠ Path.utf8 ".".toList ∧ name ≠ Path.utf8 "..".toList
  raw.mapM fun (n, name, ft) => do
    let size ← if ft = ftDir then pure 0
      else do
        match ← attempt (readInode n) with
        | .ok i => pure i.sizeLower
        | .error _ => pure 0
    return ⟨name, ft = ftDir, ft = ftSymlink, size⟩

/-- `read_file`. -/
def readFile (path : Path) : Ext2M (List UInt8) := do
  let inodeNum ← lookupPathInternal path
  let inode ← readInode inodeNum
  if inode.kind = sIfdir then throw .notAFile
  readInodeData inode

/-- The loop of `read_at` from byte `pos` to `stop`, a block at a time, zeros
for a hole; `fuel` bounds the steps, each of which reads one byte or more. -/
def readAtLoop (inode : Inode) (stop : Nat) : Nat → Nat → Ext2M (List UInt8)
  | 0, _ => return []
  | fuel + 1, pos => do
    if pos < stop then
      let st ← getState
      let offsetInBlock := pos % st.blockSize
      let chunk := min (st.blockSize - offsetInBlock) (stop - pos)
      let bytes ← match ← getBlockNum inode (pos / st.blockSize) with
        | some phys => do
          let block ← readBlock phys
          pure ((block.drop offsetInBlock).take chunk)
        | none => pure (List.replicate chunk 0)
      return bytes ++ (← readAtLoop inode stop fuel (pos + chunk))
    else return []

theorem readOnly_readAtLoop (inode : Inode) (stop : Nat) :
    ∀ fuel pos, ReadOnly (readAtLoop inode stop fuel pos)
  | 0, _ => ReadOnly.pure _
  | fuel + 1, pos => by
    unfold readAtLoop
    split
    · refine ReadOnly.bind readOnly_getState fun st => ?_
      refine ReadOnly.bind (readOnly_getBlockNum _ _) fun block => ?_
      dsimp only
      -- the bytes of this block, from the device or zeros for a hole, then the rest of the loop
      cases block with
      | some phys =>
        exact ReadOnly.bind (readOnly_readBlock phys) fun _ => ReadOnly.bind (ReadOnly.pure _) fun _ =>
          ReadOnly.bind (readOnly_readAtLoop inode stop fuel _) fun _ => ReadOnly.pure _
      | none =>
        exact ReadOnly.bind (ReadOnly.pure _) fun _ =>
          ReadOnly.bind (readOnly_readAtLoop inode stop fuel _) fun _ => ReadOnly.pure _
    · exact ReadOnly.pure _

/-- `read_at` into a buffer of `len` bytes: the bytes read. -/
def readAt (path : Path) (offset len : Nat) : Ext2M (List UInt8) := do
  if len = 0 then return []
  let inodeNum ← lookupPathInternal path
  let inode ← readInode inodeNum
  if inode.kind = sIfdir then throw .notAFile
  let fileSize := inode.sizeLower
  if offset ≥ fileSize then return []
  let stop := min (offset + len) fileSize
  readAtLoop inode stop (stop - offset) offset

/-- `metadata`. -/
def metadata (path : Path) : Ext2M Metadata := do
  let inodeNum ← lookupPathInternal path
  let inode ← readInode inodeNum
  return ⟨inode.kind = sIfdir, inode.sizeLower, inodeNum, inode.typePerms⟩

/-- `exists`. -/
def pathExists (path : Path) : Ext2M Bool := do
  match ← attempt (lookupPathInternal path) with
  | .ok _ => return true
  | .error _ => return false

/-- `read_symlink`. -/
def readSymlink (path : Path) : Ext2M (List UInt8) := do
  let inodeNum ← lookupPathInternal path
  readSymlinkInode inodeNum

/-- `is_symlink`. -/
def isSymlink (path : Path) : Ext2M Bool := do
  match ← attempt (lookupPathInternal path) with
  | .ok inodeNum =>
    match ← attempt (readInode inodeNum) with
    | .ok inode => return inode.kind = sIflnk
    | .error _ => return false
  | .error _ => return false

/-! ## Writing -/

/-- `write_file`: an existing inode that is not a directory is truncated and
written; a missing path gets a new regular file in its parent. -/
def writeFile (path : Path) (data : List UInt8) : Ext2M Unit := do
  match ← attempt (lookupPathInternal path) with
  | .ok inodeNum =>
    let inode ← readInode inodeNum
    if inode.kind = sIfdir then throw .notAFile
    let inode ← truncateInode inode
    let _ ← writeInodeData inodeNum inode data
  | .error .notFound =>
    let (parentInode, name) ← lookupParentInternal path
    let inodeNum ← allocateInode false
    let _ ← writeInodeData inodeNum (newInode defaultFilePerms) data
    addDirEntry parentInode name.utf8 inodeNum ftRegFile
  | .error e => throw e

/-- The loop of `write_at` from byte `pos` to `stop`, `written` bytes of
`data` done: a whole block is written as is, a part of one read, changed and
written back. -/
def writeAtLoop (data : List UInt8) (stop : Nat) : Nat → Nat → Nat → Inode → Ext2M Inode
  | 0, _, _, inode => return inode
  | fuel + 1, pos, written, inode => do
    if pos < stop then
      let st ← getState
      let offsetInBlock := pos % st.blockSize
      let chunk := min (st.blockSize - offsetInBlock) (stop - pos)
      -- `(pos / block_size) as u32`
      let (phys, inode) ← ensureBlock inode (pos / st.blockSize % 2 ^ 32)
      let bytes := (data.drop written).take chunk
      if offsetInBlock = 0 ∧ chunk = st.blockSize then writeBlock phys bytes
      else
        let block ← readBlock phys
        writeBlock phys (writeBytes block offsetInBlock bytes)
      writeAtLoop data stop fuel (pos + chunk) (written + chunk) inode
    else return inode

/-- `write_at`: a missing path gets a new, empty regular file first; the
size grows to the end of the write if it lies past it. -/
def writeAt (path : Path) (offset : Nat) (data : List UInt8) : Ext2M Nat := do
  if data = [] then return 0
  let inodeNum ← match ← attempt (lookupPathInternal path) with
    | .ok n => pure n
    | .error .notFound => do
      let (parentInode, name) ← lookupParentInternal path
      let inodeNum ← allocateInode false
      let _ ← writeInodeData inodeNum (newInode defaultFilePerms) []
      addDirEntry parentInode name.utf8 inodeNum ftRegFile
      pure inodeNum
    | .error e => throw e
  let inode ← readInode inodeNum
  if inode.kind = sIfdir then throw .notAFile
  let stop := offset + data.length
  let inode ← writeAtLoop data stop data.length offset 0 inode
  let inode := if stop > inode.sizeLower then { inode with sizeLower := stop % 2 ^ 32 } else inode
  writeInode inodeNum inode
  return data.length

/-- `append_file`: `write_at` at the size `metadata` reports. -/
def appendFile (path : Path) (data : List UInt8) : Ext2M Unit := do
  let size := (← metadata path).size
  let _ ← writeAt path size data

/-- The first block of a new directory: `.` naming itself and `..` naming
its parent, the second record taking the rest of the block. -/
def newDirBlock (blockSize inodeNum parentInode : Nat) : List UInt8 :=
  let dot : DirEntryRaw := ⟨inodeNum, 12, 1, ftDir⟩
  let dotdot : DirEntryRaw := ⟨parentInode, blockSize - 12, 2, ftDir⟩
  writeBytes (writeBytes (List.replicate blockSize 0) 0 (dot.bytes ++ Path.utf8 ".".toList)) 12
    (dotdot.bytes ++ Path.utf8 "..".toList)

/-- `create_dir`: a directory inode with two links and one block holding
`.` and `..`; the parent gains a link and the entry. -/
def createDir (path : Path) : Ext2M Unit := do
  if (← attempt (lookupPathInternal path)) matches .ok _ then throw .alreadyExists
  let (parentInodeNum, name) ← lookupParentInternal path
  let inodeNum ← allocateInode true
  let st ← getState
  let block ← allocateBlock
  let inode : Inode := { Inode.default with
    typePerms := defaultDirPerms
    hardLinks := 2
    directBlocks := (Vector.replicate 12 0).set 0 block
    sizeLower := st.blockSize % 2 ^ 32
    sectorsUsed := st.blockSize / 512 }
  writeBlock block (newDirBlock st.blockSize inodeNum parentInodeNum)
  writeInode inodeNum inode
  let parentInode ← readInode parentInodeNum
  writeInode parentInodeNum { parentInode with hardLinks := parentInode.hardLinks + 1 }
  addDirEntry parentInodeNum name.utf8 inodeNum ftDir

/-- `remove_file`: the entry goes; the last link frees the inode and, unless
it is a fast symlink, its blocks. -/
def removeFile (path : Path) : Ext2M Unit := do
  let inodeNum ← lookupPathInternal path
  let (parentInode, name) ← lookupParentInternal path
  let inode ← readInode inodeNum
  if inode.kind = sIfdir then throw .notAFile
  let _ ← removeDirEntry parentInode name.utf8
  let inode := { inode with hardLinks := inode.hardLinks - 1 }
  if inode.hardLinks = 0 then
    let inode ← if inode.isFastSymlink then pure inode else truncateInode inode
    writeInode inodeNum inode
    freeInode inodeNum false
  else writeInode inodeNum inode

/-- `remove_dir`: an empty directory other than the root leaves its parent,
which loses a link, and is freed. -/
def removeDir (path : Path) : Ext2M Unit := do
  let inodeNum ← lookupPathInternal path
  if inodeNum = rootInode then throw .permissionDenied
  let (parentInodeNum, name) ← lookupParentInternal path
  let inode ← readInode inodeNum
  if inode.kind ≠ sIfdir then throw .notADirectory
  let entries := parseDirectory (← readInodeData inode)
  if entries.any (fun (_, n, _) => n ≠ Path.utf8 ".".toList ∧ n ≠ Path.utf8 "..".toList) then
    throw .directoryNotEmpty
  let _ ← removeDirEntry parentInodeNum name.utf8
  let parentInode ← readInode parentInodeNum
  writeInode parentInodeNum { parentInode with hardLinks := parentInode.hardLinks - 1 }
  let inode ← truncateInode inode
  writeInode inodeNum inode
  freeInode inodeNum true

/-- `create_symlink`. -/
def createSymlink (linkPath target : Path) : Ext2M Unit := do
  if (← attempt (lookupPathInternal linkPath)) matches .ok _ then throw .alreadyExists
  let (parentInode, name) ← lookupParentInternal linkPath
  createSymlinkInternal parentInode name.utf8 target.utf8

/-- `rename`: an existing destination loses its entry and a link, and is
freed with its blocks at the last link; then the source is linked under the
new name, with the file type of a directory or a regular file, and its old
entry is removed. -/
def rename (oldPath newPath : Path) : Ext2M Unit := do
  let srcInodeNum ← lookupPathInternal oldPath
  let (srcParent, srcName) ← lookupParentInternal oldPath
  let (dstParent, dstName) ← lookupParentInternal newPath
  let srcInode ← readInode srcInodeNum
  let ft := if srcInode.kind = sIfdir then ftDir else ftRegFile
  if let .ok dstInodeNum ← attempt (lookupPathInternal newPath) then
    let dstInode ← readInode dstInodeNum
    let _ ← removeDirEntry dstParent dstName.utf8
    let dstInode := { dstInode with hardLinks := dstInode.hardLinks - 1 }
    if dstInode.hardLinks = 0 then
      let dstInode ← truncateInode dstInode
      writeInode dstInodeNum dstInode
      freeInode dstInodeNum false
    else writeInode dstInodeNum dstInode
  addDirEntry dstParent dstName.utf8 srcInodeNum ft
  let _ ← removeDirEntry srcParent srcName.utf8

/-- `fallocate` with mode `0`: every block of the range of a regular file is
allocated, and the size grows to its end. -/
def fallocate (path : Path) (mode offset len : Nat) : Ext2M Unit := do
  if mode ≠ 0 then throw .notSupported
  if len = 0 then return
  let inodeNum ← lookupPathInternal path
  let inode ← readInode inodeNum
  if inode.kind ≠ sIfreg then throw .notAFile
  let st ← getState
  -- the `u64` sums wrap, and `lb as u32` truncates
  let stop := (offset + len) % 2 ^ 64
  let first := offset / st.blockSize
  let last := (stop + (2 ^ 64 - 1)) % 2 ^ 64 / st.blockSize
  let inode ← List.foldlM (fun inode lb => do return (← ensureBlock inode (lb % 2 ^ 32)).2) inode
    (List.range' first (last + 1 - first))
  let inode := if stop > inode.sizeLower ||| (inode.sizeUpper <<< 32) then
      { inode with sizeLower := stop % 2 ^ 32, sizeUpper := stop >>> 32 }
    else inode
  writeInode inodeNum inode

/-- `truncate`: a shorter size for an inode with bit `0x8000` of its mode; a
longer one is ignored, and no block is freed. -/
def truncate (path : Path) (length : Nat) : Ext2M Unit := do
  let inodeNum ← lookupPathInternal path
  let inode ← readInode inodeNum
  if inode.typePerms &&& 0x8000 = 0 then throw .notAFile
  if length > inode.sizeLower ||| (inode.sizeUpper <<< 32) then return
  writeInode inodeNum { inode with sizeLower := length % 2 ^ 32, sizeUpper := length >>> 32 }

/-! ## Through a freshly formatted image -/

/-- A freshly formatted device of one group of `blocksPerGroup` blocks of
1 KiB and sixteen inodes of 256 bytes: block 0 for booting, 1 the
superblock, 2 the group descriptors, 3 and 4 the bitmaps, 5 to 8 the inode
table and 9 the root directory; inodes 1 to 10 reserved, inode 2 the root. -/
def freshDevice (blocksPerGroup : Nat) : Device where
  blocks n :=
    if n = 2 then BlockGroupDescriptor.encode ⟨3, 4, 5, blocksPerGroup - 9, 6, 1⟩ ++ List.replicate 1006 0
    else if n = 3 then [0xFF, 0x01] ++ List.replicate 1022 0
    else if n = 4 then [0xFF, 0x03] ++ List.replicate 1022 0
    else if n = 9 then newDirBlock 1024 rootInode rootInode
    else List.replicate 1024 0
  superblock := ⟨blocksPerGroup + 1, blocksPerGroup - 9, 6, 1, 0, blocksPerGroup, 16, ext2Magic, 1, 256⟩
  inodes n :=
    if n = rootInode then
      { newInode defaultDirPerms with
        hardLinks := 2
        sizeLower := 1024
        sectorsUsed := 2
        directBlocks := (Vector.replicate 12 0).set 0 9 }
    else Inode.default

/-- The filesystem `Ext2Filesystem::new` mounts from `freshDevice`. -/
def freshImage (blocksPerGroup : Nat) : Ext2Filesystem :=
  ⟨freshDevice blocksPerGroup, ⟨(freshDevice blocksPerGroup).superblock, 1024, 16, 256, 1, blocksPerGroup, 1⟩⟩

theorem new_freshDevice {blocksPerGroup : Nat} (h : 0 < blocksPerGroup) :
    Ext2Filesystem.new (freshDevice blocksPerGroup) = .ok (freshImage blocksPerGroup) := by
  -- one group: `(total - first + per_group - 1) / per_group` with `total = per_group + 1`
  have hcount : (blocksPerGroup + 1 - 1 + blocksPerGroup - 1) / blocksPerGroup = 1 :=
    Nat.div_eq_of_lt_le (by omega) (by omega)
  have hmagic : (freshDevice blocksPerGroup).superblock.magic = ext2Magic := rfl
  rw [Ext2Filesystem.new, if_neg (not_not.mpr hmagic)]
  change (Except.ok (Ext2Filesystem.mk _ (Ext2State.mk _ (1024 <<< 0) 16 (if 1 ≥ 1 then 256 else 128)
    ((blocksPerGroup + 1 - 1 + blocksPerGroup - 1) / blocksPerGroup) blocksPerGroup 1)) :
      Except FsError Ext2Filesystem) = _
  rw [hcount]
  rfl

/-- A name of 256 bytes is stored with `name_len = 256 as u8 = 0`: on a
consistent image `write_file` succeeds, and the file is then found under no
name, so `read_file` of the same path fails. -/
theorem writeFile_long_name_lost :
    decide (CountsAgree (freshImage 64) ∧ BlocksAccounted (freshImage 64)) = true ∧
      outcome (writeFile ('/' :: List.replicate 256 'a') [1, 2, 3]) (freshImage 64) = .ok () ∧
      outcome (do
          writeFile ('/' :: List.replicate 256 'a') [1, 2, 3]
          readFile ('/' :: List.replicate 256 'a')) (freshImage 64) = .error .notFound := by
  decide +kernel

/-- `write_file` on a fast symlink truncates it as a file: the target
`"\n"` is read as block pointer `10`, the data block of `/f`, which is
freed and handed out again to the symlink. Afterwards two allocated inodes
hold block 10, and `/f` reads the symlink's new data. -/
theorem writeFile_fast_symlink_shares_block :
    decide (CountsAgree (freshImage 64) ∧ BlocksAccounted (freshImage 64)) = true ∧
      (final? (do
          writeFile "/f".toList [104, 105]
          createSymlink "/l".toList "\n".toList) (freshImage 64)).map
        (fun fs => decide (BlocksAccounted fs)) = some true ∧
      (final? (do
          writeFile "/f".toList [104, 105]
          createSymlink "/l".toList "\n".toList
          writeFile "/l".toList [120]) (freshImage 64)).map
        (fun fs => decide (BlocksAccounted fs)) = some false ∧
      outcome (do
          writeFile "/f".toList [104, 105]
          createSymlink "/l".toList "\n".toList
          writeFile "/l".toList [120]
          readFile "/f".toList) (freshImage 64) = .ok [120, 0] := by
  decide +kernel

/-- `rename(p, p)` removes `p`'s entry as the destination, frees its inode,
links it again and then removes that link as the source: it succeeds and
`p` is gone. Renaming a symlink relinks it as a regular file in the
directory, though the inode is still a symlink. -/
theorem rename_self_unlinks :
    outcome (do writeFile "/f".toList [1]; readFile "/f".toList) (freshImage 64) = .ok [1] ∧
      outcome (do writeFile "/f".toList [1]; rename "/f".toList "/f".toList) (freshImage 64) =
        .ok () ∧
      outcome (do
          writeFile "/f".toList [1]
          rename "/f".toList "/f".toList
          readFile "/f".toList) (freshImage 64) = .error .notFound ∧
      outcome (do
          createSymlink "/s".toList "t".toList
          let before ← readDir "/".toList
          rename "/s".toList "/u".toList
          let after ← readDir "/".toList
          let target ← readSymlink "/u".toList
          pure (before.map (·.isSymlink), after.map (·.isSymlink), target)) (freshImage 64) =
        .ok ([true], [false], [116]) := by
  decide +kernel

/-- `truncate` shrinks `/f` from four bytes to one and keeps its block;
a `write_at` at offset 3 then reads that block back, changes one byte and
writes it, so bytes 1 and 2 of the old data return inside the new size
where zeros were due. -/
theorem truncate_then_write_at_reads_old_bytes :
    outcome (do
        writeFile "/f".toList [1, 2, 3, 4]
        truncate "/f".toList 1
        let _ ← writeAt "/f".toList 3 [9]
        readAt "/f".toList 0 4) (freshImage 64) = .ok [1, 2, 3, 9] := by
  decide +kernel

/-- Moving directory `/a/d` to `/b/d` leaves its `..` naming `/a`, and the
link counts where they were: `/a` keeps three links with no subdirectory
left, `/b` two with one. -/
theorem rename_dir_keeps_dotdot :
    outcome (do
        createDir "/a".toList
        createDir "/b".toList
        createDir "/a/d".toList
        rename "/a/d".toList "/b/d".toList
        let dotdot ← lookupPathInternal "/b/d/..".toList
        let a ← lookupPathInternal "/a".toList
        let b ← lookupPathInternal "/b".toList
        let subdirsA := (← readDir "/a".toList).length
        let subdirsB := (← readDir "/b".toList).length
        pure [dotdot, a, b, (← readInode a).hardLinks, subdirsA, (← readInode b).hardLinks, subdirsB])
      (freshImage 64) = .ok [11, 11, 12, 3, 0, 2, 1] := by
  decide +kernel

end Akuma.Ext2
