import Akuma.Ext2.Inode

/-!
# Directories, symlinks and path lookup

A directory's data is a run of records, each an eight-byte header
(`DirEntryRaw`: inode, record length, name length, file type) and the name,
as `parse_directory`, `add_dir_entry` and `remove_dir_entry` of
`akuma-ext2/src/ext2.rs` read and write them; the symlink internals; and
the lookups, which walk the components of a path from the root inode.

The scans of the three directory functions are loops over record offsets
that stop at a record of length zero or at the end of the data; they run
here on fuel, one step per byte of the data and one more, which a record
of non-zero length never exhausts. A name is compared as its UTF-8 bytes,
after the check `str::from_utf8` makes (`validUtf8`).

Slices that run past the data panic in the source; that needs records that
overrun the directory or a name longer than a block, and the model writes
what fits instead.
-/

namespace Akuma.Ext2

open Akuma.Vfs ByteCodec StateRun

/-! ## UTF-8 -/

/-- For the first byte of a UTF-8 sequence: how many continuation bytes
follow and the range of the first of them; `none` for a byte that starts no
sequence. -/
def utf8Lead (b : UInt8) : Option (Nat × UInt8 × UInt8) :=
  if b < 0x80 then some (0, 0x80, 0xBF)
  else if 0xC2 ≤ b ∧ b ≤ 0xDF then some (1, 0x80, 0xBF)
  else if b = 0xE0 then some (2, 0xA0, 0xBF)
  else if b = 0xED then some (2, 0x80, 0x9F)
  else if 0xE1 ≤ b ∧ b ≤ 0xEF then some (2, 0x80, 0xBF)
  else if b = 0xF0 then some (3, 0x90, 0xBF)
  else if 0xF1 ≤ b ∧ b ≤ 0xF3 then some (3, 0x80, 0xBF)
  else if b = 0xF4 then some (3, 0x80, 0x8F)
  else none

/-- The UTF-8 check with `need` continuation bytes still due, the next in
`[lo, hi]`. -/
def utf8Go : Nat → UInt8 → UInt8 → List UInt8 → Bool
  | 0, _, _, [] => true
  | 0, _, _, b :: rest =>
    match utf8Lead b with
    | some (need, lo, hi) => utf8Go need lo hi rest
    | none => false
  | _ + 1, _, _, [] => false
  | need + 1, lo, hi, c :: rest => lo ≤ c && c ≤ hi && utf8Go need 0x80 0xBF rest

/-- `core::str::from_utf8` accepts the bytes: well-formed UTF-8, without
overlong forms, surrogates or code points past `U+10FFFF`. -/
def validUtf8 (bytes : List UInt8) : Bool :=
  utf8Go 0 0x80 0xBF bytes

/-! ## Directory records -/

/-- `DirEntryRaw`. -/
structure DirEntryRaw where
  inode : Nat
  recLen : Nat
  nameLen : Nat
  fileType : Nat
  deriving DecidableEq, Repr

/-- `read_unaligned` of the header at `offset`. -/
def readEntry (data : List UInt8) (offset : Nat) : DirEntryRaw :=
  let header := (data.drop offset).take dirEntryHeaderSize
  ⟨leNat (header.take 4), leNat ((header.drop 4).take 2), (header.getD 6 0).toNat,
    (header.getD 7 0).toNat⟩

/-- The eight bytes of a header: `inode as u32`, `rec_len as u16`,
`name_len as u8`, `file_type as u8`. -/
def DirEntryRaw.bytes (e : DirEntryRaw) : List UInt8 :=
  leBytes e.inode 4 ++ leBytes e.recLen 2 ++ [UInt8.ofNat e.nameLen, UInt8.ofNat e.fileType]

/-- `(len + 3) & !3`: rounded up to a multiple of four. -/
def align4 (len : Nat) : Nat :=
  (len + 3) / 4 * 4

/-- The bytes a record needs: none for a free record. -/
def DirEntryRaw.actualLen (e : DirEntryRaw) : Nat :=
  if e.inode = 0 then 0 else align4 (dirEntryHeaderSize + e.nameLen)

/-- `usize` subtraction as a release build computes it. -/
def wrappingSub (a b : Nat) : Nat :=
  (a + 2 ^ 64 - b) % 2 ^ 64

/-- `data[offset..offset + bytes.len()].copy_from_slice(bytes)`. -/
def writeBytes (data : List UInt8) (offset : Nat) (bytes : List UInt8) : List UInt8 :=
  data.take offset ++ bytes ++ data.drop (offset + bytes.length)

/-- The name bytes of the record at `offset`, if they lie in the data and
are UTF-8. -/
def entryName? (data : List UInt8) (offset : Nat) (e : DirEntryRaw) : Option (List UInt8) :=
  let name := (data.drop (offset + dirEntryHeaderSize)).take e.nameLen
  if offset + dirEntryHeaderSize + e.nameLen ≤ data.length ∧ validUtf8 name then some name
  else none

/-- `parse_directory`: the live records, as inode, name and file type. -/
def parseDirectory (data : List UInt8) : List (Nat × List UInt8 × Nat) :=
  go (data.length + 1) 0
where
  go : Nat → Nat → List (Nat × List UInt8 × Nat)
    | 0, _ => []
    | fuel + 1, offset =>
      if offset + dirEntryHeaderSize ≤ data.length then
        let e := readEntry data offset
        if e.recLen = 0 then []
        else
          let rest := go fuel (offset + e.recLen)
          match entryName? data offset e with
          | some name => if e.inode ≠ 0 then (e.inode, name, e.fileType) :: rest else rest
          | none => rest
      else []

/-- The scan of `add_dir_entry`: the first record whose room past its own
bytes holds `alignedLen` more. -/
def findSpace (data : List UInt8) (alignedLen : Nat) : Option (Nat × DirEntryRaw) :=
  go (data.length + 1) 0
where
  go : Nat → Nat → Option (Nat × DirEntryRaw)
    | 0, _ => none
    | fuel + 1, offset =>
      if offset + dirEntryHeaderSize ≤ data.length then
        let e := readEntry data offset
        if e.recLen = 0 then none
        else if wrappingSub e.recLen e.actualLen ≥ alignedLen then some (offset, e)
        else go fuel (offset + e.recLen)
      else none

/-- `add_dir_entry`: the record goes into the room of an existing one,
which shrinks to its own length, or else at the start of a new block. -/
def addDirEntry (dirInodeNum : Nat) (name : List UInt8) (inodeNum fileType : Nat) : Ext2M Unit := do
  let dirInode ← readInode dirInodeNum
  let dirData ← readInodeData dirInode
  match findSpace dirData (align4 (dirEntryHeaderSize + name.length)) with
  | some (offset, e) =>
    let (dirData, offset) :=
      if e.inode ≠ 0 then (writeBytes dirData (offset + 4) (leBytes e.actualLen 2), offset + e.actualLen)
      else (dirData, offset)
    let entry : DirEntryRaw := ⟨inodeNum, wrappingSub e.recLen e.actualLen, name.length, fileType⟩
    let _ ← writeInodeData dirInodeNum dirInode (writeBytes dirData offset (entry.bytes ++ name))
  | none =>
    let st ← getState
    let entry : DirEntryRaw := ⟨inodeNum, st.blockSize, name.length, fileType⟩
    let dirData := writeBytes (dirData ++ List.replicate st.blockSize 0) dirData.length
      (entry.bytes ++ name)
    let _ ← writeInodeData dirInodeNum dirInode dirData

/-- The scan of `remove_dir_entry`: the offset and inode of the first live
record named `name`, with the offset of the live record before it. -/
def findEntry (data name : List UInt8) : Option (Nat × Option Nat × Nat) :=
  go (data.length + 1) 0 none
where
  go : Nat → Nat → Option Nat → Option (Nat × Option Nat × Nat)
    | 0, _, _ => none
    | fuel + 1, offset, prev =>
      if offset + dirEntryHeaderSize ≤ data.length then
        let e := readEntry data offset
        if e.recLen = 0 then none
        else if e.inode ≠ 0 ∧ entryName? data offset e = some name then some (offset, prev, e.inode)
        else go fuel (offset + e.recLen) (if e.inode ≠ 0 then some offset else prev)
      else none

/-- `remove_dir_entry`: the record is merged into the live one before it
(`rec_len` added as `u16`), or, first in the data, has its inode zeroed;
the removed inode number is returned. -/
def removeDirEntry (dirInodeNum : Nat) (name : List UInt8) : Ext2M Nat := do
  let dirInode ← readInode dirInodeNum
  let dirData ← readInodeData dirInode
  match findEntry dirData name with
  | none => throw .notFound
  | some (offset, prev, removed) =>
    let dirData := match prev with
      | some prev =>
        writeBytes dirData (prev + 4)
          (leBytes ((readEntry dirData prev).recLen + (readEntry dirData offset).recLen) 2)
      | none => writeBytes dirData offset (leBytes 0 4)
    let _ ← writeInodeData dirInodeNum dirInode dirData
    return removed

/-! ## What `remove_dir_entry` writes -/

/-- The data `remove_dir_entry` writes back and the inode it returns, as a
function of the data it read; `none` is its `NotFound`. -/
def removeDirEntryData (data name : List UInt8) : Option (List UInt8 × Nat) :=
  match findEntry data name with
  | none => none
  | some (offset, prev, removed) =>
    some ((match prev with
      | some prev =>
        writeBytes data (prev + 4)
          (leBytes ((readEntry data prev).recLen + (readEntry data offset).recLen) 2)
      | none => writeBytes data offset (leBytes 0 4)), removed)

/-- `remove_dir_entry` reads the directory, writes `removeDirEntryData` of
it back, and returns the inode that function names. -/
theorem removeDirEntry_eq (dirInodeNum : Nat) (name : List UInt8) :
    removeDirEntry dirInodeNum name = (do
      let dirInode ← readInode dirInodeNum
      let dirData ← readInodeData dirInode
      match removeDirEntryData dirData name with
      | none => throw .notFound
      | some r =>
        let _ ← writeInodeData dirInodeNum dirInode r.1
        return r.2) := by
  unfold removeDirEntry removeDirEntryData
  congr 1
  funext dirInode
  congr 1
  funext dirData
  split <;> rfl

/-- The record chain of one block from `offset`: every `rec_len` a multiple
of four, at least the aligned length of its header and name, and inside the
block, up to a record that ends exactly at the block's end. -/
def chainWellFormed (block : List UInt8) : Nat → Nat → Bool
  | 0, _ => false
  | fuel + 1, offset =>
    if offset = block.length then true
    else
      let e := readEntry block offset
      decide (offset + dirEntryHeaderSize ≤ block.length) && e.recLen % 4 == 0 &&
        decide (align4 (dirEntryHeaderSize + e.nameLen) ≤ e.recLen) &&
        decide (offset + e.recLen ≤ block.length) && chainWellFormed block fuel (offset + e.recLen)

/-- Well-formed directory data: whole blocks, each one chain of records
from its start to its end. A record is at least eight bytes long, so
`blockSize + 1` rounds are enough for a chain. -/
def dirWellFormed (blockSize : Nat) (data : List UInt8) : Bool :=
  data.length % blockSize == 0 &&
    (List.range (data.length / blockSize)).all fun i =>
      chainWellFormed ((data.drop (i * blockSize)).take blockSize) (blockSize + 1) 0

/-- The bytes of one record: its header, its name, and zeros up to
`recLen`. -/
def dirRecord (inode recLen fileType : Nat) (name : List UInt8) : List UInt8 :=
  DirEntryRaw.bytes ⟨inode, recLen, name.length, fileType⟩ ++ name ++
    List.replicate (recLen - dirEntryHeaderSize - name.length) 0

set_option synthInstance.maxSize 256 in
/-- Two well-formed one-kilobyte-block directories on which
`remove_dir_entry` goes wrong. In the first, `b` follows a free record
(inode 0) after `a`: the scan's previous live record is `a`, whose
`rec_len` grows by `b`'s to end where `b` starts. The call returns `b`'s
inode, and `b` is still listed. In the second, `x` opens the second block:
the previous live record `..` is in the first block, and its new `rec_len`
runs across the block boundary, so the data is no longer well formed. -/
theorem remove_dir_entry_merges_into_wrong_record :
    (let data := dirRecord 11 12 1 [97] ++ dirRecord 0 12 1 [100] ++ dirRecord 12 12 1 [98] ++
        dirRecord 13 988 1 [99]
     dirWellFormed 1024 data = true ∧
       parseDirectory data = [(11, [97], 1), (12, [98], 1), (13, [99], 1)] ∧
       (removeDirEntryData data [98]).map (fun r => (r.2, dirWellFormed 1024 r.1, parseDirectory r.1)) =
         some (12, true, [(11, [97], 1), (12, [98], 1), (13, [99], 1)])) ∧
    (let data := dirRecord 2 12 2 [46] ++ dirRecord 2 1012 2 [46, 46] ++ dirRecord 14 1024 1 [120]
     dirWellFormed 1024 data = true ∧
       (removeDirEntryData data [120]).map (fun r => (r.2, dirWellFormed 1024 r.1, parseDirectory r.1)) =
         some (14, false, [(2, [46], 2), (2, [46, 46], 2)])) := by
  constructor
  · decide +kernel
  · decide +kernel

/-! ## Symlinks -/

/-- A new inode of the given type and permissions, with one link. -/
def newInode (typePerms : Nat) : Inode :=
  { Inode.default with typePerms := typePerms, hardLinks := 1 }

/-- `create_symlink_internal`: a target of at most sixty bytes is kept in
the block pointers, a longer one in data blocks. -/
def createSymlinkInternal (parentInode : Nat) (name target : List UInt8) : Ext2M Unit := do
  let inodeNum ← allocateInode false
  let inode := { newInode defaultSymlinkPerms with sizeLower := target.length % 2 ^ 32 }
  let inode ← if target.length ≤ fastSymlinkMax then pure (inode.withBlockBytes target)
    else writeInodeData inodeNum inode target
  writeInode inodeNum inode
  addDirEntry parentInode name inodeNum ftSymlink

/-- `read_symlink_inode`: the target, from the block pointers when no
sector is used and it fits there. -/
def readSymlinkInode (inodeNum : Nat) : Ext2M (List UInt8) := do
  let inode ← readInode inodeNum
  if inode.kind ≠ sIflnk then throw .notAFile
  let len := inode.sizeLower
  let target ← if inode.sectorsUsed = 0 ∧ len ≤ fastSymlinkMax then pure (inode.blockBytes.take len)
    else do
      let data ← readInodeData inode
      pure (data.take len)
  if validUtf8 target then return target else throw .ioError

/-! ## Lookup -/

/-- One component of `lookup_path_internal`: the inode named `component` in
directory `current`. -/
def lookupStep (current : Nat) (component : Path) : Ext2M Nat := do
  let inode ← readInode current
  if inode.kind ≠ sIfdir then throw .notADirectory
  let dirData ← readInodeData inode
  match (parseDirectory dirData).find? (·.2.1 = component.utf8) with
  | some (inodeNum, _, _) => return inodeNum
  | none => throw .notFound

/-- `lookup_path_internal` (and `lookup_path`): the components of the path
walked from the root inode. -/
def lookupPathInternal (path : Path) : Ext2M Nat :=
  List.foldlM lookupStep rootInode (pathComponents path)

theorem readOnly_lookupStep (current : Nat) (component : Path) :
    ReadOnly (lookupStep current component) := by
  unfold lookupStep
  refine ReadOnly.bind (readOnly_readInode _) fun inode => ?_
  dsimp only
  split
  · exact ReadOnly.throw_bind _ _
  · refine ReadOnly.bind (readOnly_readInodeData inode) fun dirData => ?_
    split
    · exact ReadOnly.pure _
    · exact ReadOnly.throw _

theorem readOnly_lookupPathInternal (path : Path) : ReadOnly (lookupPathInternal path) :=
  ReadOnly.foldlM readOnly_lookupStep _ _

/-- `lookup_parent_internal` (and `lookup_parent`): the inode of the parent
directory and the last component. -/
def lookupParentInternal (path : Path) : Ext2M (Nat × Path) := do
  let (parentPath, name) := splitPath path
  if name = [] then throw .invalidPath
  let parentInode ← lookupPathInternal (if parentPath = [] then ['/'] else parentPath)
  return (parentInode, name)

end Akuma.Ext2
