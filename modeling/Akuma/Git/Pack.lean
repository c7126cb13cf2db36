import Akuma.Git.Delta
import Akuma.Lib.OrdMap
import Akuma.Lib.Zlib
import Akuma.Lib.Sha1

/-!
# Pack files

`PackParser` of `userspace/scratch/src/pack.rs`, which parses a whole pack
in memory, and `StreamingPackParser` of `pack_stream.rs`, which is fed the
pack in chunks and finished after the last one. A pack is `PACK`, a version
and an object count, then each object: a type-and-size header, for a delta
the offset or the hash of its base, and the zlib stream of its content.

Two things the parsers call stand in for code outside the model. The object
store keeps each object as a zlib file named by the SHA-1 of its header and
content; here it is a map from hash to object, with the hash a parameter
(`hashObject`). `zlib::decompress_with_consumed` calls miniz_oxide; here it
is a parameter (`inflate`) that returns the inflated bytes and how many
input bytes the stream took, or an error. `apply_delta` is the model of
`Git.Delta`, panics included. The streaming parser's receive buffer is the
bytes not yet consumed: the lazy compaction of `consume` does not change
them. Progress messages are left out.

`StreamingPackParser::finish` does not look at where the parser stopped,
so a pack that ends before its header is complete, even an empty one,
finishes with no error, where `PackParser::new` rejects it
(`short_pack_streams_but_batch_fails`).
-/

namespace Akuma.Git

open Panicking

/-- The parsers' `Result`s, over the panics of `apply_delta`: an `Err` is
its message. -/
abbrev PackM (α : Type) := ExceptT String (Except Panic) α

/-- The `Result` of a call that does not panic. -/
def ofResult {α : Type} (r : Except String α) : PackM α := ExceptT.mk (.ok r)

/-- `apply_delta`, which may panic. -/
def applyDeltaM (base delta : List Nat) : PackM (List Nat) := ExceptT.mk (applyDelta base delta)

@[simp] theorem run_ofResult {α : Type} (r : Except String α) : (ofResult r).run = .ok r := rfl

@[simp] theorem run_pure {α : Type} (a : α) : (pure a : PackM α).run = .ok (.ok a) := rfl

@[simp] theorem run_throw {α : Type} (e : String) : (throw e : PackM α).run = .ok (.error e) := rfl

/-- A computation that ends in a value ran each of its parts to a value. -/
theorem run_bind_eq_ok {α β : Type} {x : PackM α} {f : α → PackM β} {b : β} :
    (x >>= f).run = .ok (.ok b) ↔ ∃ a, x.run = .ok (.ok a) ∧ (f a).run = .ok (.ok b) := by
  rw [ExceptT.run_bind]
  rcases hx : x.run with e | e | a
  · simp [bind, Except.bind]
  · simp [bind, Except.bind, pure, Except.pure]
  · simp [bind, Except.bind]

theorem run_bind_of_eq_ok {α β : Type} {x : PackM α} {f : α → PackM β} {a : α}
    (hx : x.run = .ok (.ok a)) : (x >>= f).run = (f a).run := by
  rw [ExceptT.run_bind, hx]
  rfl

/-! ## Objects and the store -/

inductive ObjectType
  | commit
  | tree
  | blob
  | tag
  deriving DecidableEq, Repr

/-- `ObjectType::as_str`. -/
def ObjectType.asStr : ObjectType → List Char
  | .blob => ['b', 'l', 'o', 'b']
  | .tree => ['t', 'r', 'e', 'e']
  | .commit => ['c', 'o', 'm', 'm', 'i', 't']
  | .tag => ['t', 'a', 'g']

/-- A SHA-1 hash, as its twenty bytes. -/
abbrev Sha1Hash := List Nat

/-- The object store: each object under its hash. -/
structure ObjectStore where
  objects : OrdMap Sha1Hash (ObjectType × List Nat)

/-- `read_raw_content`. -/
def ObjectStore.readRawContent (st : ObjectStore) (sha : Sha1Hash) :
    Except String (ObjectType × List Nat) :=
  match st.objects.get? sha with
  | some obj => .ok obj
  | none => .error "object not found"

section Store

variable (hashObject : ObjectType → List Nat → Sha1Hash)

/-- `write_content`: the object goes under the hash of its header and
content, over whatever was there. -/
def ObjectStore.writeContent (st : ObjectStore) (objType : ObjectType) (content : List Nat) :
    ObjectStore × Sha1Hash :=
  let sha := hashObject objType content
  (⟨st.objects.insert sha (objType, content)⟩, sha)

end Store

/-- The hash `write_content` files an object under: the SHA-1 of the header
`{type} {size}\0` and the content, as `write_raw` computes it. The header is
ASCII, so its bytes are the codes of its characters. -/
def contentHash (sha1 : List Nat → Sha1Hash) (objType : ObjectType) (content : List Nat) : Sha1Hash :=
  sha1 ((objType.asStr ++ ' ' :: Nat.toDigits 10 content.length).map Char.toNat ++ 0 :: content)

example : contentHash Sha1.digest .blob [0x61] =
    [0x2e, 0x65, 0xef, 0xe2, 0xa1, 0x45, 0xdd, 0xa7, 0xee, 0x51, 0xd1, 0x74, 0x12, 0x99, 0xf8, 0x48, 0xe5, 0xbf,
      0x75, 0x2e] := by
  decide +kernel

/-! ## Headers -/

/-- `b"PACK"`. -/
def packMagic : List Nat := [0x50, 0x41, 0x43, 0x4b]

/-- `u32::from_be_bytes`. -/
def beU32 (bytes : List Nat) : Nat := bytes.foldl (fun acc b => acc * 256 + b) 0

/-- `usize` subtraction in a build without overflow checks. -/
def subUsize (a b : Nat) : Nat := (a + 2 ^ 64 - b % 2 ^ 64) % 2 ^ 64

/-- One more byte of an `OFS_DELTA` offset: `((offset + 1) << 7) | (byte & 0x7f)`
on `usize`, which wraps. -/
def ofsStep (offset byte : Nat) : Nat :=
  ((offset + 1) % 2 ^ 64 <<< 7) % 2 ^ 64 ||| (byte &&& 0x7f)

inductive PackObjectType
  | commit
  | tree
  | blob
  | tag
  | ofsDelta
  | refDelta
  deriving DecidableEq, Repr

def PackObjectType.fromTypeBits : Nat → Option PackObjectType
  | 1 => some .commit
  | 2 => some .tree
  | 3 => some .blob
  | 4 => some .tag
  | 6 => some .ofsDelta
  | 7 => some .refDelta
  | _ => none

def PackObjectType.toObjectType : PackObjectType → Option ObjectType
  | .commit => some .commit
  | .tree => some .tree
  | .blob => some .blob
  | .tag => some .tag
  | _ => none

/-! ## The batch parser -/

/-- `PackParser`: the pack, where the scan is, and the object count. -/
structure PackParser where
  data : List Nat
  pos : Nat
  objectCount : Nat

/-- `PackParser::new`: the header checked, the scan after it. -/
def PackParser.new (data : List Nat) : Except String PackParser :=
  if data.length < 12 then .error "pack too small for header"
  else if data.take 4 ≠ packMagic then .error "invalid pack magic"
  else
    let version := beU32 ((data.take 8).drop 4)
    if version ≠ 2 ∧ version ≠ 3 then .error "unsupported pack version"
    else .ok ⟨data, 12, beU32 ((data.take 12).drop 8)⟩

theorem PackParser.new_of_short {data : List Nat} (hshort : data.length < 12) :
    PackParser.new data = .error "pack too small for header" := by
  rw [PackParser.new, if_pos hshort]

/-- The continuation bytes of a size, while the last byte read has its high
bit set: the size and the bytes read. -/
def sizeBytesLoop : List Nat → (byte size shift : Nat) → Except String (Nat × Nat)
  | rest, byte, size, shift =>
    if byte &&& 0x80 = 0 then .ok (size, 0)
    else
      match rest with
      | [] => .error "truncated size"
      | b :: rest =>
        (sizeBytesLoop rest b (size ||| shlUsize (b &&& 0x7f) shift) (shift + 7)).map
          fun r => (r.1, r.2 + 1)

/-- `PackParser::parse_type_and_size` at `pos`: the type, the size, and the
position after the header. -/
def PackParser.parseTypeAndSize (data : List Nat) (pos : Nat) :
    Except String (PackObjectType × Nat × Nat) :=
  match data.drop pos with
  | [] => .error "unexpected end of pack"
  | byte :: rest =>
    match PackObjectType.fromTypeBits ((byte >>> 4) &&& 0x7) with
    | none => .error "invalid object type"
    | some objType =>
      (sizeBytesLoop rest byte (byte &&& 0x0f) 4).map fun r => (objType, r.1, pos + 1 + r.2)

/-- The continuation bytes of an `OFS_DELTA` offset: the offset and the
bytes read. -/
def ofsBytesLoop : List Nat → (byte offset : Nat) → Except String (Nat × Nat)
  | rest, byte, offset =>
    if byte &&& 0x80 = 0 then .ok (offset, 0)
    else
      match rest with
      | [] => .error "truncated OFS_DELTA offset"
      | b :: rest => (ofsBytesLoop rest b (ofsStep offset b)).map fun r => (r.1, r.2 + 1)

/-- `PackParser::parse_ofs_delta_offset` at `pos`: the offset back to the
base, and the position after it. -/
def PackParser.parseOfsDeltaOffset (data : List Nat) (pos : Nat) : Except String (Nat × Nat) :=
  match data.drop pos with
  | [] => .error "truncated OFS_DELTA offset"
  | byte :: rest => (ofsBytesLoop rest byte (byte &&& 0x7f)).map fun r => (r.1, pos + 1 + r.2)

/-- `EntryMeta`. -/
structure EntryMeta where
  offset : Nat
  objType : PackObjectType
  compressedOffset : Nat
  compressedLen : Nat
  ofsDeltaOffset : Option Nat
  refDeltaSha : Option Sha1Hash

section Batch

variable (inflate : List Nat → Except String (List Nat × Nat))
  (hashObject : ObjectType → List Nat → Sha1Hash)

/-- `PackParser::scan_entry` at `pos`: the entry, and the position after
its zlib stream. -/
def PackParser.scanEntry (data : List Nat) (pos : Nat) : Except String (EntryMeta × Nat) := do
  let (objType, _, pos') ← PackParser.parseTypeAndSize data pos
  let (ofs, refSha, pos'') ← match objType with
    | .ofsDelta => do
      let (o, q) ← PackParser.parseOfsDeltaOffset data pos'
      pure (some o, none, q)
    | .refDelta =>
      if pos' + 20 > data.length then throw "truncated REF_DELTA header"
      else pure (none, some ((data.take (pos' + 20)).drop pos'), pos' + 20)
    | _ => pure (none, none, pos')
  let (_, consumed) ← inflate (data.drop pos'')
  pure (⟨pos, objType, pos'', consumed, ofs, refSha⟩, pos'' + consumed)

/-- Phase 1 of `parse_all`: `count` entries from `pos`. -/
def PackParser.scanAll (data : List Nat) : (count pos : Nat) → Except String (List EntryMeta)
  | 0, _ => pure []
  | count + 1, pos => do
    let (e, pos) ← PackParser.scanEntry inflate data pos
    let es ← PackParser.scanAll data count pos
    pure (e :: es)

/-- `PackParser::decompress_entry`. -/
def PackParser.decompressEntry (data : List Nat) (e : EntryMeta) : Except String (List Nat) :=
  (inflate ((data.drop e.compressedOffset).take e.compressedLen)).map (·.1)

/-- What phases 2 and 3 of `parse_all` build: the store, the hashes stored,
the contents kept for the offsets that are `OFS_DELTA` bases, and the pack
offset of each hash. -/
structure ResolveState where
  store : ObjectStore
  shas : List Sha1Hash
  resolvedBases : OrdMap Nat (ObjectType × List Nat)
  shaToOffset : OrdMap Sha1Hash Nat

/-- The four steps after an object's content is known, in both phases: write
it, map its hash to its offset, push its hash, and keep its content if it is
a base. -/
def ResolveState.storeEntry (needed : List Nat) (st : ResolveState) (e : EntryMeta)
    (objType : ObjectType) (content : List Nat) : ResolveState :=
  let (store, sha) := st.store.writeContent hashObject objType content
  { store := store
    shas := st.shas ++ [sha]
    shaToOffset := st.shaToOffset.insert sha e.offset
    resolvedBases := if e.offset ∈ needed then st.resolvedBases.insert e.offset (objType, content)
      else st.resolvedBases }

/-- Phase 2: the whole objects stored, the deltas left in order. -/
def PackParser.storeWhole (data : List Nat) (needed : List Nat) :
    List EntryMeta → ResolveState → Except String (ResolveState × List EntryMeta)
  | [], st => pure (st, [])
  | e :: es, st =>
    match e.objType.toObjectType with
    | none => do
      let (st, rest) ← PackParser.storeWhole data needed es st
      pure (st, e :: rest)
    | some objType => do
      let content ← PackParser.decompressEntry inflate data e
      PackParser.storeWhole data needed es (st.storeEntry hashObject needed e objType content)

/-- A delta whose base is known: inflate it, apply it, store the result. -/
def PackParser.applyAndStore (data : List Nat) (needed : List Nat) (st : ResolveState)
    (e : EntryMeta) (baseType : ObjectType) (baseData : List Nat) : PackM ResolveState := do
  let delta ← ofResult (PackParser.decompressEntry inflate data e)
  let result ← applyDeltaM baseData delta
  pure (st.storeEntry hashObject needed e baseType result)

/-- The base a delta finds among the objects kept so far. -/
def ResolveState.baseOf (st : ResolveState) (e : EntryMeta) : Option (ObjectType × List Nat) :=
  match e.objType with
  | .ofsDelta => st.resolvedBases.get? (subUsize e.offset (e.ofsDeltaOffset.getD 0))
  | .refDelta => (st.shaToOffset.get? (e.refDeltaSha.getD [])).bind st.resolvedBases.get?
  | _ => none

/-- One pass of phase 3 over the deltas left: those whose base is found are
applied in order, the others are left in order. -/
def PackParser.resolvePass (data : List Nat) (needed : List Nat) :
    List EntryMeta → ResolveState → PackM (ResolveState × List EntryMeta)
  | [], st => pure (st, [])
  | e :: es, st =>
    match st.baseOf e with
    | some (baseType, baseData) => do
      let st ← PackParser.applyAndStore inflate hashObject data needed st e baseType baseData
      PackParser.resolvePass data needed es st
    | none =>
      -- a `REF_DELTA` base may already be in the store
      match e.objType, st.store.readRawContent (e.refDeltaSha.getD []) with
      | .refDelta, .ok (baseType, baseData) => do
        let st ← PackParser.applyAndStore inflate hashObject data needed st e baseType baseData
        PackParser.resolvePass data needed es st
      | _, _ => do
        let (st, rest) ← PackParser.resolvePass data needed es st
        pure (st, e :: rest)

/-- Phase 3: passes while deltas are left, each of which must resolve one,
at most `fuel` of them. -/
def PackParser.resolveLoop (data : List Nat) (needed : List Nat) :
    (fuel : Nat) → List EntryMeta → ResolveState → PackM ResolveState
  | _, [], st => pure st
  | 0, _ :: _, _ => throw "delta base not found"
  | fuel + 1, e :: es, st => do
    let (st, still) ← PackParser.resolvePass inflate hashObject data needed (e :: es) st
    if still.length = (e :: es).length then throw "delta base not found"
    PackParser.resolveLoop data needed fuel still st

/-- `PackParser::parse_all` into `store`: the store after, and the hashes in
the order they were stored. -/
def PackParser.parseAll (p : PackParser) (store : ObjectStore) :
    PackM (ObjectStore × List Sha1Hash) := do
  let entries ← ofResult (PackParser.scanAll inflate p.data p.objectCount p.pos)
  let needed := entries.filterMap fun e => e.ofsDeltaOffset.map (subUsize e.offset)
  let (st, remaining) ← ofResult
    (PackParser.storeWhole inflate hashObject p.data needed entries ⟨store, [], .empty, .empty⟩)
  let st ← PackParser.resolveLoop inflate hashObject p.data needed (remaining.length + 1) remaining st
  pure (st.store, st.shas)

/-- `PackParser::new(pack)` and then `parse_all(store)`. -/
def batchParse (store : ObjectStore) (pack : List Nat) : PackM (ObjectStore × List Sha1Hash) := do
  let p ← ofResult (PackParser.new pack)
  p.parseAll inflate hashObject store

end Batch

/-! ## The streaming parser -/

/-- `ParseState`, with the header length of an object that a later state
consumes, which is never zero. The unused `size` fields are left out. -/
inductive ParseState
  | header
  | objectHeader (offset : Nat)
  | objectData (offset objType headerLen : Nat) (hlen : 0 < headerLen)
  | ofsDeltaHeader (offset headerLen : Nat) (hlen : 0 < headerLen)
  | ofsDeltaData (offset baseOffset headerLen ofsLen : Nat) (hlen : 0 < headerLen)
  | refDeltaHeader (offset headerLen : Nat)
  | refDeltaData (offset : Nat) (baseSha : Sha1Hash) (headerLen : Nat)
  | done
  deriving DecidableEq, Repr

inductive ProcessResult
  | needMore
  | continue
  | done
  deriving DecidableEq, Repr

/-- `StreamingPackParser`, with the receive buffer as its bytes not yet
consumed. The pack version it reads is never used, and is left out. -/
structure StreamingPackParser where
  buf : List Nat
  state : ParseState
  store : ObjectStore
  objectCount : Nat
  objectsParsed : Nat
  offsetMap : OrdMap Nat (ObjectType × Sha1Hash)
  currentOffset : Nat
  pendingDeltas : List (Sha1Hash × List Nat)

/-- `StreamingPackParser::new` over the store of the repository. -/
def StreamingPackParser.new (store : ObjectStore) : StreamingPackParser :=
  ⟨[], .header, store, 0, 0, .empty, 0, []⟩

/-- The continuation bytes of a type-and-size header in the buffer: the size
and the header length so far, or nothing while the header is not all in. -/
def typeSizeLoop : List Nat → (size shift i : Nat) → Option (Nat × Nat)
  | [], _, _, _ => none
  | byte :: rest, size, shift, i =>
    let size := size ||| shlUsize (byte &&& 0x7f) shift
    if byte &&& 0x80 = 0 then some (size, i + 1) else typeSizeLoop rest size (shift + 7) (i + 1)

/-- `StreamingPackParser::parse_type_and_size`: the type bits, the size and
the header length. -/
def StreamingPackParser.parseTypeAndSize (buf : List Nat) : Option (Nat × Nat × Nat) :=
  match buf with
  | [] => none
  | first :: rest =>
    if first &&& 0x80 ≠ 0 then
      (typeSizeLoop rest (first &&& 0x0f) 4 1).map fun r => ((first >>> 4) &&& 0x07, r.1, r.2)
    else some ((first >>> 4) &&& 0x07, first &&& 0x0f, 1)

theorem typeSizeLoop_pos {rest : List Nat} {size shift i : Nat} {r : Nat × Nat}
    (h : typeSizeLoop rest size shift i = some r) : i < r.2 := by
  induction rest generalizing size shift i with
  | nil => simp [typeSizeLoop] at h
  | cons byte rest ih =>
    simp only [typeSizeLoop] at h
    split_ifs at h
    · cases h
      simp
    · exact Nat.lt_of_succ_lt (ih h)

/-- A header is at least its first byte. -/
theorem parseTypeAndSize_pos {buf : List Nat} {r : Nat × Nat × Nat}
    (h : StreamingPackParser.parseTypeAndSize buf = some r) : 0 < r.2.2 := by
  unfold StreamingPackParser.parseTypeAndSize at h
  split at h
  · cases h
  · split_ifs at h
    · obtain ⟨r', hr', rfl⟩ := Option.map_eq_some_iff.mp h
      exact lt_trans Nat.zero_lt_one (typeSizeLoop_pos hr')
    · cases h
      simp

/-- A header all in the buffer reads the same with more bytes after it. -/
theorem typeSizeLoop_append {rest more : List Nat} {size shift i : Nat} {r : Nat × Nat}
    (h : typeSizeLoop rest size shift i = some r) : typeSizeLoop (rest ++ more) size shift i = some r := by
  induction rest generalizing size shift i with
  | nil => simp [typeSizeLoop] at h
  | cons byte rest ih =>
    simp only [typeSizeLoop, List.cons_append] at h ⊢
    split_ifs at h ⊢
    · exact h
    · exact ih h

theorem parseTypeAndSize_append {buf more : List Nat} {r : Nat × Nat × Nat}
    (h : StreamingPackParser.parseTypeAndSize buf = some r) :
    StreamingPackParser.parseTypeAndSize (buf ++ more) = some r := by
  cases buf with
  | nil => simp [StreamingPackParser.parseTypeAndSize] at h
  | cons first rest =>
    simp only [StreamingPackParser.parseTypeAndSize, List.cons_append] at h ⊢
    split_ifs at h ⊢
    · obtain ⟨r', hr', rfl⟩ := Option.map_eq_some_iff.mp h
      rw [typeSizeLoop_append hr']
      rfl
    · exact h

/-- The loop of `process_ofs_delta_header` over at most ten bytes: the
offset back to the base and the bytes it took, or nothing while they are
not all in. -/
def ofsDeltaLoop : (fuel : Nat) → List Nat → (i offset : Nat) → Option (Nat × Nat)
  | 0, _, i, offset => some (offset, i)
  | _ + 1, [], _, _ => none
  | fuel + 1, byte :: rest, i, offset =>
    let offset := if i = 0 then byte &&& 0x7f else ofsStep offset byte
    if byte &&& 0x80 = 0 then some (offset, i + 1) else ofsDeltaLoop fuel rest (i + 1) offset

theorem ofsDeltaLoop_append {fuel : Nat} {bytes more : List Nat} {i offset : Nat} {r : Nat × Nat}
    (h : ofsDeltaLoop fuel bytes i offset = some r) : ofsDeltaLoop fuel (bytes ++ more) i offset = some r := by
  induction fuel generalizing bytes i offset with
  | zero => simpa [ofsDeltaLoop] using h
  | succ fuel ih =>
    cases bytes with
    | nil => simp [ofsDeltaLoop] at h
    | cons byte rest =>
      simp only [ofsDeltaLoop, List.cons_append] at h ⊢
      -- the offset so far does not depend on the bytes after this one
      by_cases hlast : byte &&& 0x80 = 0
      · simpa only [hlast, if_true] using h
      · simp only [hlast, if_false] at h ⊢
        exact ih h

/-- The rank of a state in the parse of one object, which falls at every
step that consumes nothing. -/
def ParseState.rank : ParseState → Nat
  | .header => 3
  | .objectHeader _ => 2
  | .ofsDeltaHeader .. | .refDeltaHeader .. => 1
  | _ => 0

/-- What the streaming parser relies on of `decompress_with_consumed`: it
stops at the end of the stream, so it takes no more bytes than it is
given, and bytes after the stream change nothing. -/
structure StopsAtStreamEnd (inflate : List Nat → Except String (List Nat × Nat)) : Prop where
  consumed_le : ∀ {bytes r}, inflate bytes = .ok r → r.2 ≤ bytes.length
  append : ∀ {bytes more r}, inflate bytes = .ok r → inflate (bytes ++ more) = .ok r

section Streaming

variable (inflate : List Nat → Except String (List Nat × Nat))
  (hashObject : ObjectType → List Nat → Sha1Hash)

namespace StreamingPackParser

/-- `advance_to_next_object`. -/
def advanceToNextObject (p : StreamingPackParser) : StreamingPackParser :=
  { p with state := if p.objectsParsed ≥ p.objectCount then .done else .objectHeader p.currentOffset }

/-- The end of every object: `total` bytes consumed, the offset moved past
them, and the next object's state. -/
def finishObject (p : StreamingPackParser) (total : Nat) : StreamingPackParser :=
  advanceToNextObject { p with buf := p.buf.drop total, currentOffset := p.currentOffset + total }

def processHeader (p : StreamingPackParser) : PackM (ProcessResult × StreamingPackParser) :=
  if p.buf.length < 12 then pure (.needMore, p)
  else if p.buf.take 4 ≠ packMagic then throw "invalid pack signature"
  else
    let objectCount := beU32 ((p.buf.take 12).drop 8)
    pure (.continue, { p with
      objectCount := objectCount
      buf := p.buf.drop 12
      currentOffset := 12
      state := if objectCount = 0 then .done else .objectHeader 12 })

def processObjectHeader (p : StreamingPackParser) (offset : Nat) :
    PackM (ProcessResult × StreamingPackParser) :=
  if p.buf = [] then pure (.needMore, p)
  else
    match h : parseTypeAndSize p.buf with
    | none => pure (.needMore, p)
    | some (objType, _, headerLen) =>
      have hlen : 0 < headerLen := parseTypeAndSize_pos h
      if objType = 1 ∨ objType = 2 ∨ objType = 3 ∨ objType = 4 then
        pure (.continue, { p with state := .objectData offset objType headerLen hlen })
      else if objType = 6 then pure (.continue, { p with state := .ofsDeltaHeader offset headerLen hlen })
      else if objType = 7 then pure (.continue, { p with state := .refDeltaHeader offset headerLen })
      else throw "unknown object type"

/-- The object type of a whole object's type bits. -/
def objectTypeOfBits : Nat → Except String ObjectType
  | 1 => .ok .commit
  | 2 => .ok .tree
  | 3 => .ok .blob
  | 4 => .ok .tag
  | _ => .error "unknown type"

def processObjectData (p : StreamingPackParser) (offset objType headerLen : Nat) :
    PackM (ProcessResult × StreamingPackParser) :=
  if p.buf.length ≤ headerLen then pure (.needMore, p)
  else
    -- an error of the inflater is taken for a stream not all in yet
    match inflate (p.buf.drop headerLen) with
    | .error _ => pure (.needMore, p)
    | .ok (decompressed, consumed) => do
      let typeName ← ofResult (objectTypeOfBits objType)
      let (store, sha) := p.store.writeContent hashObject typeName decompressed
      pure (.continue, finishObject { p with
        store := store
        offsetMap := p.offsetMap.insert offset (typeName, sha)
        objectsParsed := p.objectsParsed + 1 } (headerLen + consumed))

def processOfsDeltaHeader (p : StreamingPackParser) (offset headerLen : Nat) (hlen : 0 < headerLen) :
    PackM (ProcessResult × StreamingPackParser) :=
  if p.buf.length ≤ headerLen then pure (.needMore, p)
  else
    match ofsDeltaLoop 10 (p.buf.drop headerLen) 0 0 with
    | none => pure (.needMore, p)
    | some (baseOffsetDelta, ofsLen) =>
      -- `saturating_sub`
      pure (.continue, { p with
        state := .ofsDeltaData offset (offset - baseOffsetDelta) headerLen ofsLen hlen })

def processOfsDeltaData (p : StreamingPackParser) (offset baseOffset headerLen ofsLen : Nat) :
    PackM (ProcessResult × StreamingPackParser) :=
  let dataStart := headerLen + ofsLen
  if p.buf.length ≤ dataStart then pure (.needMore, p)
  else
    match inflate (p.buf.drop dataStart) with
    | .error _ => pure (.needMore, p)
    | .ok (deltaData, consumed) => do
      let (baseType, baseSha) ← ofResult ((p.offsetMap.get? baseOffset).elim
        (.error "OFS_DELTA base not found") .ok)
      let (_, baseContent) ← ofResult (p.store.readRawContent baseSha)
      let result ← applyDeltaM baseContent deltaData
      let (store, sha) := p.store.writeContent hashObject baseType result
      pure (.continue, finishObject { p with
        store := store
        offsetMap := p.offsetMap.insert offset (baseType, sha)
        objectsParsed := p.objectsParsed + 1 } (dataStart + consumed))

def processRefDeltaHeader (p : StreamingPackParser) (offset headerLen : Nat) :
    PackM (ProcessResult × StreamingPackParser) :=
  if p.buf.length < headerLen + 20 then pure (.needMore, p)
  else
    pure (.continue, { p with
      state := .refDeltaData offset ((p.buf.take (headerLen + 20)).drop headerLen) headerLen })

/-- `resolve_ref_delta`: the base from the store, the delta applied, the
result stored. -/
def resolveRefDelta (store : ObjectStore) (baseSha : Sha1Hash) (deltaData : List Nat) :
    PackM (ObjectStore × Sha1Hash) := do
  let (baseType, baseContent) ← ofResult (store.readRawContent baseSha)
  let result ← applyDeltaM baseContent deltaData
  pure (store.writeContent hashObject baseType result)

/-- What a `REF_DELTA` leaves: its result stored, and its offset recorded when
the base is still there to give the type, or, when the resolution failed,
the delta deferred. -/
def recordRefDelta (p : StreamingPackParser) (offset : Nat) (baseSha : Sha1Hash)
    (deltaData : List Nat) : Option (ObjectStore × Sha1Hash) → StreamingPackParser
  | some (store, sha) =>
    match store.readRawContent baseSha with
    | .ok (baseType, _) =>
      { p with store := store, offsetMap := p.offsetMap.insert offset (baseType, sha) }
    | .error _ => { p with store := store }
  | none => { p with pendingDeltas := p.pendingDeltas ++ [(baseSha, deltaData)] }

def processRefDeltaData (p : StreamingPackParser) (offset : Nat) (baseSha : Sha1Hash)
    (headerLen : Nat) : PackM (ProcessResult × StreamingPackParser) :=
  let dataStart := headerLen + 20
  if p.buf.length ≤ dataStart then pure (.needMore, p)
  else
    match inflate (p.buf.drop dataStart) with
    | .error _ => pure (.needMore, p)
    | .ok (deltaData, consumed) => do
      -- an `Err` of the resolution defers the delta; a panic goes through
      let outcome ← tryCatch (some <$> resolveRefDelta hashObject p.store baseSha deltaData)
        (fun _ => pure none)
      let p := recordRefDelta p offset baseSha deltaData outcome
      pure (.continue, finishObject { p with objectsParsed := p.objectsParsed + 1 } (dataStart + consumed))

/-- `process_buffer`: one step of the state machine. -/
def processBuffer (p : StreamingPackParser) : PackM (ProcessResult × StreamingPackParser) :=
  match p.state with
  | .header => processHeader p
  | .objectHeader offset => processObjectHeader p offset
  | .objectData offset objType headerLen _ => processObjectData inflate hashObject p offset objType headerLen
  | .ofsDeltaHeader offset headerLen hlen => processOfsDeltaHeader p offset headerLen hlen
  | .ofsDeltaData offset baseOffset headerLen ofsLen _ =>
    processOfsDeltaData inflate hashObject p offset baseOffset headerLen ofsLen
  | .refDeltaHeader offset headerLen => processRefDeltaHeader p offset headerLen
  | .refDeltaData offset baseSha headerLen => processRefDeltaData inflate hashObject p offset baseSha headerLen
  | .done => pure (.done, p)

/-! ### The loop of `feed` ends

A step that continues either consumes bytes or moves to a state of lower
rank, so the measure below falls at each. The bytes count three times,
because the end of an object may move from rank 0 back to rank 2. -/

/-- Three for every byte not yet consumed, and the rank of the state. -/
def measure (p : StreamingPackParser) : Nat := 3 * p.buf.length + p.state.rank

@[simp] theorem finishObject_buf (p : StreamingPackParser) (total : Nat) :
    (finishObject p total).buf = p.buf.drop total := rfl

theorem finishObject_rank_le (p : StreamingPackParser) (total : Nat) :
    (finishObject p total).state.rank ≤ 2 := by
  simp only [finishObject, advanceToNextObject]
  split <;> simp [ParseState.rank]

/-- The end of an object that took bytes lowers the measure below that of
any state over the same buffer. -/
theorem measure_finishObject_lt (p : StreamingPackParser) {total : Nat}
    (hpos : 0 < total) (hbuf : 0 < p.buf.length) :
    (finishObject p total).measure < 3 * p.buf.length := by
  have hrank := finishObject_rank_le p total
  simp only [measure, finishObject_buf, List.length_drop]
  omega

@[simp] theorem recordRefDelta_buf (p : StreamingPackParser) (offset : Nat) (baseSha : Sha1Hash)
    (deltaData : List Nat) (outcome : Option (ObjectStore × Sha1Hash)) :
    (recordRefDelta p offset baseSha deltaData outcome).buf = p.buf := by
  rcases outcome with _ | ⟨store, sha⟩
  · rfl
  · simp only [recordRefDelta]
    split <;> rfl

/-- What a step that ends in a value may do: wait for more bytes with the
parser as it was, or continue with a parser of measure below `bound`. -/
def StepOk (p q : StreamingPackParser) (r : ProcessResult) (bound : Nat) : Prop :=
  r = .needMore ∧ q = p ∨ r = .continue ∧ q.measure < bound

theorem StepOk.needMore {p q : StreamingPackParser} {r : ProcessResult} {bound : Nat}
    (h : (pure (.needMore, p) : PackM (ProcessResult × StreamingPackParser)).run = .ok (.ok (r, q))) :
    StepOk p q r bound := by
  simp only [run_pure, Except.ok.injEq, Prod.mk.injEq] at h
  exact .inl ⟨h.1.symm, h.2.symm⟩

theorem StepOk.continue {p q q' : StreamingPackParser} {r : ProcessResult} {bound : Nat}
    (h : (pure (.continue, q') : PackM (ProcessResult × StreamingPackParser)).run = .ok (.ok (r, q)))
    (hlt : q'.measure < bound) : StepOk p q r bound := by
  simp only [run_pure, Except.ok.injEq, Prod.mk.injEq] at h
  obtain ⟨rfl, rfl⟩ := h
  exact .inr ⟨rfl, hlt⟩

theorem processHeader_ok {p q : StreamingPackParser} {r : ProcessResult}
    (h : (processHeader p).run = .ok (.ok (r, q))) : StepOk p q r (3 * p.buf.length) := by
  unfold processHeader at h
  split_ifs at h with hshort hmagic
  · exact StepOk.needMore h
  · simp at h
  · refine StepOk.continue h ?_
    have hrank : (if beU32 ((p.buf.take 12).drop 8) = 0 then ParseState.done
        else .objectHeader 12).rank ≤ 2 := by split <;> simp [ParseState.rank]
    simp only [measure, List.length_drop]
    omega

theorem processObjectHeader_ok {p q : StreamingPackParser} {offset : Nat} {r : ProcessResult}
    (h : (processObjectHeader p offset).run = .ok (.ok (r, q))) :
    StepOk p q r (3 * p.buf.length + 2) := by
  unfold processObjectHeader at h
  split_ifs at h
  · exact StepOk.needMore h
  · split at h
    · exact StepOk.needMore h
    · -- the buffer stays, and the state falls to a rank of at most one
      split_ifs at h
      · exact StepOk.continue h (by simp [measure, ParseState.rank])
      · exact StepOk.continue h (by simp [measure, ParseState.rank])
      · exact StepOk.continue h (by simp [measure, ParseState.rank])
      · simp at h

theorem processObjectData_ok {p q : StreamingPackParser} {offset objType headerLen : Nat}
    {r : ProcessResult} (hlen : 0 < headerLen)
    (h : (processObjectData inflate hashObject p offset objType headerLen).run = .ok (.ok (r, q))) :
    StepOk p q r (3 * p.buf.length) := by
  unfold processObjectData at h
  split_ifs at h with hbuf
  · exact StepOk.needMore h
  · split at h
    · exact StepOk.needMore h
    · obtain ⟨typeName, -, h⟩ := run_bind_eq_ok.mp h
      exact StepOk.continue h (by simpa using measure_finishObject_lt _ (by omega) (by simp; omega))

theorem processOfsDeltaHeader_ok {p q : StreamingPackParser} {offset headerLen : Nat}
    {hlen : 0 < headerLen} {r : ProcessResult}
    (h : (processOfsDeltaHeader p offset headerLen hlen).run = .ok (.ok (r, q))) :
    StepOk p q r (3 * p.buf.length + 1) := by
  unfold processOfsDeltaHeader at h
  split_ifs at h
  · exact StepOk.needMore h
  · split at h
    · exact StepOk.needMore h
    · exact StepOk.continue h (by simp [measure, ParseState.rank])

theorem processOfsDeltaData_ok {p q : StreamingPackParser}
    {offset baseOffset headerLen ofsLen : Nat} {r : ProcessResult} (hlen : 0 < headerLen)
    (h : (processOfsDeltaData inflate hashObject p offset baseOffset headerLen ofsLen).run =
      .ok (.ok (r, q))) :
    StepOk p q r (3 * p.buf.length) := by
  unfold processOfsDeltaData at h
  dsimp only at h
  split_ifs at h with hbuf
  · exact StepOk.needMore h
  · split at h
    · exact StepOk.needMore h
    · obtain ⟨⟨baseType, baseSha⟩, -, h⟩ := run_bind_eq_ok.mp h
      obtain ⟨base, -, h⟩ := run_bind_eq_ok.mp h
      obtain ⟨result, -, h⟩ := run_bind_eq_ok.mp h
      exact StepOk.continue h (by simpa using measure_finishObject_lt _ (by omega) (by simp; omega))

theorem processRefDeltaHeader_ok {p q : StreamingPackParser} {offset headerLen : Nat}
    {r : ProcessResult} (h : (processRefDeltaHeader p offset headerLen).run = .ok (.ok (r, q))) :
    StepOk p q r (3 * p.buf.length + 1) := by
  unfold processRefDeltaHeader at h
  split_ifs at h
  · exact StepOk.needMore h
  · exact StepOk.continue h (by simp [measure, ParseState.rank])

theorem processRefDeltaData_ok {p q : StreamingPackParser} {offset headerLen : Nat}
    {baseSha : Sha1Hash} {r : ProcessResult}
    (h : (processRefDeltaData inflate hashObject p offset baseSha headerLen).run =
      .ok (.ok (r, q))) :
    StepOk p q r (3 * p.buf.length) := by
  unfold processRefDeltaData at h
  dsimp only at h
  split_ifs at h with hbuf
  · exact StepOk.needMore h
  · split at h
    · exact StepOk.needMore h
    · obtain ⟨outcome, -, h⟩ := run_bind_eq_ok.mp h
      exact StepOk.continue h (by simpa using measure_finishObject_lt _ (by omega) (by simp; omega))

theorem StepOk.mono {p q : StreamingPackParser} {r : ProcessResult} {bound bound' : Nat}
    (h : StepOk p q r bound) (hle : bound ≤ bound') : StepOk p q r bound' := by
  rcases h with h | ⟨hr, hlt⟩
  · exact .inl h
  · exact .inr ⟨hr, by omega⟩

/-- A step of the state machine that ends in a value continues with a lower
measure, or stops with the parser as it was. -/
theorem processBuffer_ok {p q : StreamingPackParser} {r : ProcessResult}
    (h : (processBuffer inflate hashObject p).run = .ok (.ok (r, q))) :
    r = .continue ∧ q.measure < p.measure ∨ r ≠ .continue ∧ q = p := by
  have hstep : StepOk p q r (3 * p.buf.length + p.state.rank) ∨ r = .done ∧ q = p := by
    unfold processBuffer at h
    -- the rank of each state is what the lemma of its step needs
    split at h <;> rename_i hst <;> simp only [hst, ParseState.rank]
    case h_1 => exact .inl ((processHeader_ok h).mono (by omega))
    case h_2 => exact .inl (processObjectHeader_ok h)
    case h_3 hlen => exact .inl ((processObjectData_ok inflate hashObject hlen h).mono (by omega))
    case h_4 => exact .inl (processOfsDeltaHeader_ok h)
    case h_5 hlen => exact .inl ((processOfsDeltaData_ok inflate hashObject hlen h).mono (by omega))
    case h_6 => exact .inl (processRefDeltaHeader_ok h)
    case h_7 => exact .inl ((processRefDeltaData_ok inflate hashObject h).mono (by omega))
    case h_8 =>
      simp only [run_pure, Except.ok.injEq, Prod.mk.injEq] at h
      exact .inr ⟨h.1.symm, h.2.symm⟩
  rcases hstep with (⟨rfl, rfl⟩ | ⟨rfl, hlt⟩) | ⟨rfl, rfl⟩
  · exact .inr ⟨by decide, rfl⟩
  · exact .inl ⟨rfl, hlt⟩
  · exact .inr ⟨by decide, rfl⟩

/-- Every step that continues lowers the measure. -/
theorem processBuffer_continue_lt {p p' : StreamingPackParser}
    (h : (processBuffer inflate hashObject p).run = .ok (.ok (.continue, p'))) :
    p'.measure < p.measure := by
  rcases processBuffer_ok inflate hashObject h with ⟨-, hlt⟩ | ⟨hne, -⟩
  · exact hlt
  · exact absurd rfl hne

/-! ### Steps over a longer buffer

A step that does not wait for more bytes reads only bytes it has, so with
more bytes after them it does the same and leaves them after its own. -/

/-- The parser with `more` after the bytes it holds. -/
def appendBuf (p : StreamingPackParser) (more : List Nat) : StreamingPackParser :=
  { p with buf := p.buf ++ more }

@[simp] theorem appendBuf_buf (p : StreamingPackParser) (more : List Nat) :
    (p.appendBuf more).buf = p.buf ++ more := rfl

/-- A step's outcome with `more` after the bytes of the parser it returns. -/
def appendResult (more : List Nat) :
    Except Panic (Except String (ProcessResult × StreamingPackParser)) →
      Except Panic (Except String (ProcessResult × StreamingPackParser))
  | .ok (.ok (r, q)) => .ok (.ok (r, q.appendBuf more))
  | .ok (.error msg) => .ok (.error msg)
  | .error e => .error e

theorem run_bind_appendResult {α : Type} (more : List Nat) {x : PackM α}
    {f g : α → PackM (ProcessResult × StreamingPackParser)}
    (hfg : ∀ a, (g a).run = appendResult more (f a).run) :
    (x >>= g).run = appendResult more (x >>= f).run := by
  rw [ExceptT.run_bind, ExceptT.run_bind]
  rcases x.run with e | e | a
  · rfl
  · rfl
  · exact hfg a

theorem processHeader_appendBuf (p : StreamingPackParser) (more : List Nat) :
    (processHeader p).run = .ok (.ok (.needMore, p)) ∨
      (processHeader (p.appendBuf more)).run = appendResult more (processHeader p).run := by
  by_cases hshort : p.buf.length < 12
  · left
    simp [processHeader, hshort]
  · right
    have hlong : ¬ (p.appendBuf more).buf.length < 12 := by simp; omega
    have htake : ∀ n ≤ 12, (p.appendBuf more).buf.take n = p.buf.take n := fun n hn =>
      List.take_append_of_le_length (by omega)
    have hdrop : (p.appendBuf more).buf.drop 12 = p.buf.drop 12 ++ more :=
      List.drop_append_of_le_length (by omega)
    rw [processHeader, processHeader, if_neg hlong, if_neg hshort, htake 4 (by omega),
      htake 12 le_rfl, hdrop]
    split_ifs <;> rfl

theorem processObjectHeader_appendBuf (p : StreamingPackParser) (offset : Nat) (more : List Nat) :
    (processObjectHeader p offset).run = .ok (.ok (.needMore, p)) ∨
      (processObjectHeader (p.appendBuf more) offset).run =
        appendResult more (processObjectHeader p offset).run := by
  by_cases hnil : p.buf = []
  · left
    simp [processObjectHeader, hnil]
  have hnil' : (p.appendBuf more).buf ≠ [] := by simp [hnil]
  unfold processObjectHeader
  rw [if_neg hnil, if_neg hnil']
  split
  · left
    rfl
  · -- the header is all in, and reads the same over the longer buffer
    rename_i objType size headerLen hparse
    right
    split
    · rename_i hparse'
      rw [appendBuf_buf, parseTypeAndSize_append hparse] at hparse'
      cases hparse'
    · rename_i objType' size' headerLen' hparse'
      rw [appendBuf_buf, parseTypeAndSize_append hparse] at hparse'
      cases hparse'
      split_ifs <;> rfl

/-- The end of an object inside the buffer keeps the bytes after it, for a
parser `a` that is `b` with `more` after its bytes. -/
theorem finishObject_appendBuf {a b : StreamingPackParser} {total : Nat} {more : List Nat}
    (hbuf : a.buf = b.buf ++ more) (hrest : { a with buf := [] } = { b with buf := [] })
    (h : total ≤ b.buf.length) :
    finishObject a total = (finishObject b total).appendBuf more := by
  rcases a with ⟨_, state, store, count, parsed, offsets, offset, pending⟩
  simp only [StreamingPackParser.mk.injEq, true_and] at hrest
  obtain ⟨rfl, rfl, rfl, rfl, rfl, rfl, rfl⟩ := hrest
  simp only at hbuf
  subst hbuf
  simp [finishObject, advanceToNextObject, appendBuf, List.drop_append_of_le_length h]

theorem processOfsDeltaHeader_appendBuf (p : StreamingPackParser) (offset headerLen : Nat)
    (hlen : 0 < headerLen) (more : List Nat) :
    (processOfsDeltaHeader p offset headerLen hlen).run = .ok (.ok (.needMore, p)) ∨
      (processOfsDeltaHeader (p.appendBuf more) offset headerLen hlen).run =
        appendResult more (processOfsDeltaHeader p offset headerLen hlen).run := by
  by_cases hshort : p.buf.length ≤ headerLen
  · left
    simp [processOfsDeltaHeader, hshort]
  rcases hloop : ofsDeltaLoop 10 (p.buf.drop headerLen) 0 0 with _ | ⟨baseOffsetDelta, ofsLen⟩
  · left
    simp [processOfsDeltaHeader, hshort, hloop]
  · right
    have hdrop : (p.appendBuf more).buf.drop headerLen = p.buf.drop headerLen ++ more :=
      List.drop_append_of_le_length (by omega)
    rw [processOfsDeltaHeader, processOfsDeltaHeader, if_neg (by simp; omega), if_neg hshort, hdrop,
      ofsDeltaLoop_append hloop, hloop]
    rfl

theorem processRefDeltaHeader_appendBuf (p : StreamingPackParser) (offset headerLen : Nat)
    (more : List Nat) :
    (processRefDeltaHeader p offset headerLen).run = .ok (.ok (.needMore, p)) ∨
      (processRefDeltaHeader (p.appendBuf more) offset headerLen).run =
        appendResult more (processRefDeltaHeader p offset headerLen).run := by
  by_cases hshort : p.buf.length < headerLen + 20
  · left
    simp [processRefDeltaHeader, hshort]
  · right
    have htake : (p.appendBuf more).buf.take (headerLen + 20) = p.buf.take (headerLen + 20) :=
      List.take_append_of_le_length (by omega)
    rw [processRefDeltaHeader, processRefDeltaHeader, if_neg (by simp; omega), if_neg hshort, htake]
    rfl

/-- What a `REF_DELTA` leaves does not look at the buffer. -/
theorem recordRefDelta_appendBuf (p : StreamingPackParser) (offset : Nat) (baseSha : Sha1Hash)
    (deltaData more : List Nat) (outcome : Option (ObjectStore × Sha1Hash)) :
    { recordRefDelta (p.appendBuf more) offset baseSha deltaData outcome with buf := [] } =
      { recordRefDelta p offset baseSha deltaData outcome with buf := [] } := by
  rcases outcome with _ | ⟨store, sha⟩
  · rfl
  · simp only [recordRefDelta]
    split <;> rfl

section Inflate

variable {inflate} (hinflate : StopsAtStreamEnd inflate)
include hinflate

/-- A stream that starts inside the buffer and is all in reads the same
with more bytes after it, and ends inside the buffer. -/
theorem inflate_appendBuf {p : StreamingPackParser} {start : Nat} (more : List Nat)
    {decompressed : List Nat} {consumed : Nat} (hstart : start < p.buf.length)
    (h : inflate (p.buf.drop start) = .ok (decompressed, consumed)) :
    inflate ((p.appendBuf more).buf.drop start) = .ok (decompressed, consumed) ∧
      start + consumed ≤ p.buf.length := by
  have hdrop : (p.appendBuf more).buf.drop start = p.buf.drop start ++ more :=
    List.drop_append_of_le_length (by omega)
  have hle := hinflate.consumed_le h
  simp only [List.length_drop] at hle
  exact ⟨hdrop ▸ hinflate.append h, by omega⟩

theorem processObjectData_appendBuf (p : StreamingPackParser) (offset objType headerLen : Nat)
    (more : List Nat) :
    (processObjectData inflate hashObject p offset objType headerLen).run = .ok (.ok (.needMore, p)) ∨
      (processObjectData inflate hashObject (p.appendBuf more) offset objType headerLen).run =
        appendResult more (processObjectData inflate hashObject p offset objType headerLen).run := by
  by_cases hshort : p.buf.length ≤ headerLen
  · left
    simp [processObjectData, hshort]
  rcases hstream : inflate (p.buf.drop headerLen) with msg | ⟨decompressed, consumed⟩
  · left
    simp [processObjectData, hshort, hstream]
  · right
    obtain ⟨hstream', hend⟩ := inflate_appendBuf hinflate more (by omega) hstream
    rw [processObjectData, processObjectData, if_neg (by simp; omega), if_neg hshort]
    simp only [hstream, hstream']
    apply run_bind_appendResult
    intro typeName
    simp only [run_pure, appendResult, Except.ok.injEq, Prod.mk.injEq, true_and]
    exact finishObject_appendBuf rfl rfl hend

theorem processOfsDeltaData_appendBuf (p : StreamingPackParser)
    (offset baseOffset headerLen ofsLen : Nat) (more : List Nat) :
    (processOfsDeltaData inflate hashObject p offset baseOffset headerLen ofsLen).run =
        .ok (.ok (.needMore, p)) ∨
      (processOfsDeltaData inflate hashObject (p.appendBuf more) offset baseOffset headerLen ofsLen).run =
        appendResult more (processOfsDeltaData inflate hashObject p offset baseOffset headerLen ofsLen).run := by
  by_cases hshort : p.buf.length ≤ headerLen + ofsLen
  · left
    simp [processOfsDeltaData, hshort]
  rcases hstream : inflate (p.buf.drop (headerLen + ofsLen)) with msg | ⟨deltaData, consumed⟩
  · left
    simp [processOfsDeltaData, hshort, hstream]
  · right
    obtain ⟨hstream', hend⟩ := inflate_appendBuf hinflate more (by omega) hstream
    rw [processOfsDeltaData, processOfsDeltaData]
    dsimp only
    rw [if_neg (by simp; omega), if_neg hshort]
    simp only [hstream, hstream']
    -- the base, its content and the delta do not look at the buffer
    apply run_bind_appendResult
    rintro ⟨baseType, baseSha⟩
    apply run_bind_appendResult
    rintro ⟨-, baseContent⟩
    apply run_bind_appendResult
    intro result
    simp only [run_pure, appendResult, Except.ok.injEq, Prod.mk.injEq, true_and]
    exact finishObject_appendBuf rfl rfl hend

theorem processRefDeltaData_appendBuf (p : StreamingPackParser) (offset : Nat) (baseSha : Sha1Hash)
    (headerLen : Nat) (more : List Nat) :
    (processRefDeltaData inflate hashObject p offset baseSha headerLen).run = .ok (.ok (.needMore, p)) ∨
      (processRefDeltaData inflate hashObject (p.appendBuf more) offset baseSha headerLen).run =
        appendResult more (processRefDeltaData inflate hashObject p offset baseSha headerLen).run := by
  by_cases hshort : p.buf.length ≤ headerLen + 20
  · left
    simp [processRefDeltaData, hshort]
  rcases hstream : inflate (p.buf.drop (headerLen + 20)) with msg | ⟨deltaData, consumed⟩
  · left
    simp [processRefDeltaData, hshort, hstream]
  · right
    obtain ⟨hstream', hend⟩ := inflate_appendBuf hinflate more (by omega) hstream
    rw [processRefDeltaData, processRefDeltaData]
    dsimp only
    rw [if_neg (by simp; omega), if_neg hshort]
    simp only [hstream, hstream']
    apply run_bind_appendResult
    intro outcome
    simp only [run_pure, appendResult, Except.ok.injEq, Prod.mk.injEq, true_and]
    have hrest := recordRefDelta_appendBuf p offset baseSha deltaData more outcome
    exact finishObject_appendBuf (by simp) (by simpa using hrest) (by simpa using hend)

/-- A step of the state machine waits for more bytes with the parser as it
was, or does the same over a longer buffer. -/
theorem processBuffer_appendBuf (p : StreamingPackParser) (more : List Nat) :
    (processBuffer inflate hashObject p).run = .ok (.ok (.needMore, p)) ∨
      (processBuffer inflate hashObject (p.appendBuf more)).run =
        appendResult more (processBuffer inflate hashObject p).run := by
  have hst : (p.appendBuf more).state = p.state := rfl
  unfold processBuffer
  rw [hst]
  split
  · exact processHeader_appendBuf p more
  · exact processObjectHeader_appendBuf p _ more
  · exact processObjectData_appendBuf hashObject hinflate p _ _ _ more
  · exact processOfsDeltaHeader_appendBuf p _ _ _ more
  · exact processOfsDeltaData_appendBuf hashObject hinflate p _ _ _ _ more
  · exact processRefDeltaHeader_appendBuf p _ _ more
  · exact processRefDeltaData_appendBuf hashObject hinflate p _ _ _ more
  · exact .inr rfl

end Inflate

/-- The loop of `feed`: `process_buffer` until it needs more bytes or is
done; `true` while the parser wants more. -/
def feedLoop (p : StreamingPackParser) : PackM (Bool × StreamingPackParser) :=
  match _h : (processBuffer inflate hashObject p).run with
  | .error e => ExceptT.mk (.error e)
  | .ok (.error msg) => throw msg
  | .ok (.ok (.needMore, p')) => pure (true, p')
  | .ok (.ok (.continue, p')) => feedLoop p'
  | .ok (.ok (.done, p')) => pure (false, p')
termination_by p.measure
decreasing_by exact processBuffer_continue_lt inflate hashObject _h

/-- The loop after one step. -/
theorem run_feedLoop (p : StreamingPackParser) :
    (feedLoop inflate hashObject p).run =
      match (processBuffer inflate hashObject p).run with
      | .error e => .error e
      | .ok (.error msg) => .ok (.error msg)
      | .ok (.ok (.needMore, q)) => .ok (.ok (true, q))
      | .ok (.ok (.continue, q)) => (feedLoop inflate hashObject q).run
      | .ok (.ok (.done, q)) => .ok (.ok (false, q)) := by
  rw [feedLoop]
  split <;> rename_i hrun <;> rw [hrun] <;> rfl

theorem run_feedLoop_of_continue {p q : StreamingPackParser}
    (h : (processBuffer inflate hashObject p).run = .ok (.ok (.continue, q))) :
    (feedLoop inflate hashObject p).run = (feedLoop inflate hashObject q).run := by
  rw [run_feedLoop, h]

/-- `feed`: the chunk appended to the buffer, then the loop. -/
def feed (p : StreamingPackParser) (data : List Nat) : PackM (Bool × StreamingPackParser) :=
  feedLoop inflate hashObject { p with buf := p.buf ++ data }

/-- `finish`: each deferred `REF_DELTA` resolved in turn, the first `Err`
returned, and the count of objects parsed. -/
def finish (p : StreamingPackParser) : PackM (Nat × StreamingPackParser) := do
  let store ← p.pendingDeltas.foldlM
    (fun store (baseSha, deltaData) => Prod.fst <$> resolveRefDelta hashObject store baseSha deltaData)
    p.store
  pure (p.objectsParsed, { p with store := store, pendingDeltas := [] })

/-- Before twelve bytes are in, a feed only stores its chunk and asks for more. -/
theorem feed_of_short {p : StreamingPackParser} {data : List Nat} (hst : p.state = .header)
    (hshort : (p.buf ++ data).length < 12) :
    (feed inflate hashObject p data).run = .ok (.ok (true, { p with buf := p.buf ++ data })) := by
  have hstep : (processBuffer inflate hashObject { p with buf := p.buf ++ data }).run =
      .ok (.ok (.needMore, { p with buf := p.buf ++ data })) := by
    have hlen : p.buf.length + data.length < 12 := by simpa using hshort
    simp [processBuffer, hst, processHeader, hlen]
  rw [feed, run_feedLoop, hstep]

/-- With no `REF_DELTA` deferred, `finish` only returns the count. -/
theorem finish_of_no_pending {p : StreamingPackParser} (hpend : p.pendingDeltas = []) :
    (finish hashObject p).run = .ok (.ok (p.objectsParsed, p)) := by
  rcases p with ⟨buf, state, store, count, parsed, offsets, offset, pending⟩
  subst hpend
  simp [finish]

/-- Each chunk fed in turn, whatever the previous feed answered. -/
def feedAll (p : StreamingPackParser) (chunks : List (List Nat)) : PackM StreamingPackParser :=
  chunks.foldlM (fun p chunk => Prod.snd <$> feed inflate hashObject p chunk) p

/-- Chunks that together are shorter than a pack header are only stored. -/
theorem feedAll_of_short {p : StreamingPackParser} {chunks : List (List Nat)}
    (hst : p.state = .header) (hshort : (p.buf ++ chunks.flatten).length < 12) :
    (feedAll inflate hashObject p chunks).run = .ok (.ok { p with buf := p.buf ++ chunks.flatten }) := by
  induction chunks generalizing p with
  | nil => simp [feedAll]
  | cons chunk rest ih =>
    have hchunk : (p.buf ++ chunk).length < 12 := by
      simp only [List.flatten_cons, List.length_append] at hshort ⊢
      omega
    have hfeed : (Prod.snd <$> feed inflate hashObject p chunk).run =
        .ok (.ok { p with buf := p.buf ++ chunk }) := by
      rw [ExceptT.run_map, feed_of_short inflate hashObject hst hchunk]
      rfl
    have hrest := ih (p := { p with buf := p.buf ++ chunk }) hst (by simpa using hshort)
    rw [feedAll, List.foldlM_cons, run_bind_of_eq_ok hfeed]
    simpa [feedAll] using hrest

section Chunks

variable {inflate} (hinflate : StopsAtStreamEnd inflate)
include hinflate

/-- Bytes that come after the loop stopped are bytes the loop would have
gone on with: the loop over a longer buffer is the loop, then the loop
again with the rest. -/
theorem feedLoop_appendBuf (p : StreamingPackParser) (more : List Nat) :
    feedLoop inflate hashObject (p.appendBuf more) =
      feedLoop inflate hashObject p >>= fun r => feedLoop inflate hashObject (r.2.appendBuf more) := by
  -- induction on the measure, which every step that goes on lowers
  induction hm : p.measure using Nat.strong_induction_on generalizing p with
  | _ m ih =>
  apply ExceptT.ext
  rw [ExceptT.run_bind]
  rcases processBuffer_appendBuf hashObject hinflate p more with hstall | hstep
  · -- the step waited for bytes that may now be in
    rw [run_feedLoop inflate hashObject p, hstall]
    rfl
  · rw [run_feedLoop inflate hashObject (p.appendBuf more), hstep, run_feedLoop inflate hashObject p]
    rcases hrun : (processBuffer inflate hashObject p).run with e | msg | ⟨r, q⟩
    · rfl
    · rfl
    · rcases processBuffer_ok inflate hashObject hrun with ⟨rfl, hlt⟩ | ⟨hne, rfl⟩
      · dsimp only [appendResult]
        rw [ih q.measure (hm ▸ hlt) q rfl, ExceptT.run_bind]
      · -- a stop leaves the parser, and the loop goes on over the longer buffer
        have hagain := run_feedLoop inflate hashObject (q.appendBuf more)
        rw [hstep, hrun] at hagain
        rcases r with _ | _ | _
        · exact hagain.symm
        · exact absurd rfl hne
        · exact hagain.symm

/-- Feeding the chunks one by one is feeding them at once. -/
theorem feedAll_cons (p : StreamingPackParser) (chunk : List Nat) (chunks : List (List Nat)) :
    feedAll inflate hashObject p (chunk :: chunks) =
      Prod.snd <$> feed inflate hashObject p (chunk :: chunks).flatten := by
  induction chunks generalizing p chunk with
  | nil => simp [feedAll]
  | cons next rest ih =>
    have hbuf : { p with buf := p.buf ++ (chunk :: next :: rest).flatten } =
        (p.appendBuf chunk).appendBuf (next :: rest).flatten := by
      simp [appendBuf]
    have hfeed : ∀ q : StreamingPackParser, feedAll inflate hashObject q (next :: rest) =
        Prod.snd <$> feed inflate hashObject q (next :: rest).flatten := fun q => ih q next
    calc feedAll inflate hashObject p (chunk :: next :: rest)
        = (Prod.snd <$> feed inflate hashObject p chunk) >>= fun q =>
            Prod.snd <$> feed inflate hashObject q (next :: rest).flatten := by
          simp only [feedAll, List.foldlM_cons] at hfeed ⊢
          simp only [hfeed]
      _ = Prod.snd <$> feed inflate hashObject p (chunk :: next :: rest).flatten := by
          have hsplit : feed inflate hashObject p (chunk :: next :: rest).flatten =
              feed inflate hashObject p chunk >>= fun r =>
                feed inflate hashObject r.2 (next :: rest).flatten := by
            rw [feed, hbuf, feedLoop_appendBuf hashObject hinflate]
            rfl
          rw [hsplit, map_bind, bind_map_left]

end Chunks

end StreamingPackParser

/-- The streaming parser over a repository's store: the chunks fed, then
`finish`. The store and the count `finish` returns. -/
def streamParse (store : ObjectStore) (chunks : List (List Nat)) : PackM (ObjectStore × Nat) := do
  let p ← StreamingPackParser.feedAll inflate hashObject (StreamingPackParser.new store) chunks
  let (count, p) ← StreamingPackParser.finish hashObject p
  pure (p.store, count)

/-- A pack shorter than its header, however it is cut into chunks, streams
to success with nothing stored, where the batch parser rejects it. -/
theorem short_pack_streams_but_batch_fails (store : ObjectStore) (chunks : List (List Nat))
    (hshort : chunks.flatten.length < 12) :
    (streamParse inflate hashObject store chunks).run = .ok (.ok (store, 0)) ∧
      (batchParse inflate hashObject store chunks.flatten).run =
        .ok (.error "pack too small for header") := by
  constructor
  · have hfed := StreamingPackParser.feedAll_of_short inflate hashObject
      (p := StreamingPackParser.new store) rfl (by simpa [StreamingPackParser.new] using hshort)
    have hfinish := StreamingPackParser.finish_of_no_pending hashObject
      (p := { StreamingPackParser.new store with
        buf := (StreamingPackParser.new store).buf ++ chunks.flatten }) rfl
    rw [streamParse, run_bind_of_eq_ok hfed, run_bind_of_eq_ok hfinish]
    rfl
  · simp only [batchParse, PackParser.new_of_short hshort]
    rfl

/-- With an inflater that stops at the end of its stream, how the pack is
cut into chunks changes nothing: the streaming parse is the parse of the
whole pack fed at once, to the same store and count, or the same error or
panic. -/
theorem streamParse_eq_whole {inflate} (hinflate : StopsAtStreamEnd inflate) (store : ObjectStore)
    (chunks : List (List Nat)) :
    streamParse inflate hashObject store chunks = streamParse inflate hashObject store [chunks.flatten] := by
  have hfed : StreamingPackParser.feedAll inflate hashObject (StreamingPackParser.new store) chunks =
      StreamingPackParser.feedAll inflate hashObject (StreamingPackParser.new store) [chunks.flatten] := by
    cases chunks with
    | nil =>
      -- nothing fed, or one empty chunk, which the header waits behind
      apply ExceptT.ext
      have hempty := @StreamingPackParser.feedAll_of_short inflate hashObject
        (StreamingPackParser.new store) [[]] rfl (by simp [StreamingPackParser.new])
      rw [List.flatten_nil, hempty]
      rfl
    | cons chunk rest =>
      rw [StreamingPackParser.feedAll_cons hashObject hinflate,
        StreamingPackParser.feedAll_cons hashObject hinflate, List.flatten_singleton]
  rw [streamParse, streamParse, hfed]

end Streaming

theorem short_pack_streams_but_batch_fails_cut_magic :
    ([[0x50, 0x41], [0x43, 0x4b]] : List (List Nat)).flatten.length < 12 ∧
      ((streamParse (fun _ => .error "corrupt deflate stream") (fun _ content => content)
          ⟨.empty⟩ [[0x50, 0x41], [0x43, 0x4b]]).run = .ok (.ok (⟨.empty⟩, 0)) ∧
        (batchParse (fun _ => .error "corrupt deflate stream") (fun _ content => content)
          ⟨.empty⟩ [0x50, 0x41, 0x43, 0x4b]).run = .ok (.error "pack too small for header")) :=
  ⟨by decide, short_pack_streams_but_batch_fails _ _ _ _ (by decide)⟩

/-- `decompress_with_consumed` on zlib streams of stored blocks, which
`Zlib.inflate` reads as miniz_oxide does: the content and the bytes the
stream took, or `Error::decompress()`. A stream with a compressed block
fails here where miniz_oxide would inflate it. -/
def storedDecompress (bytes : List Nat) : Except String (List Nat × Nat) :=
  match Zlib.inflate bytes with
  | some r => .ok r
  | none => .error "zlib decompression failed"

example : storedDecompress [3, 0x61, 0x62, 0x63] = .error "zlib decompression failed" := rfl

theorem storedDecompress_stopsAtStreamEnd : StopsAtStreamEnd storedDecompress where
  consumed_le := by
    intro bytes r h
    unfold storedDecompress at h
    split at h
    · next r' hr =>
      cases h
      exact Zlib.inflate_consumed_le hr
    · cases h
  append := by
    intro bytes more r h
    unfold storedDecompress at h ⊢
    split at h
    · next r' hr =>
      cases h
      rw [Zlib.inflate_append hr more]
    · cases h

/-- A pack of one blob `abc`, its content in a stored zlib block, cut
inside its header and inside its stream. -/
theorem streamParse_eq_whole_cut_blob :
    StopsAtStreamEnd storedDecompress ∧
      streamParse storedDecompress (contentHash Sha1.digest) ⟨.empty⟩
          [[0x50, 0x41, 0x43], [0x4b, 0, 0, 0, 2, 0, 0, 0, 1, 0x33, 0x78, 0x01, 1, 3, 0],
            [0xfc, 0xff, 0x61, 0x62, 0x63, 0x02, 0x4d, 0x01, 0x27]] =
        streamParse storedDecompress (contentHash Sha1.digest) ⟨.empty⟩
          [[0x50, 0x41, 0x43, 0x4b, 0, 0, 0, 2, 0, 0, 0, 1, 0x33, 0x78, 0x01, 1, 3, 0, 0xfc, 0xff, 0x61, 0x62, 0x63,
            0x02, 0x4d, 0x01, 0x27]] :=
  ⟨storedDecompress_stopsAtStreamEnd, streamParse_eq_whole _ storedDecompress_stopsAtStreamEnd _ _⟩

end Akuma.Git
