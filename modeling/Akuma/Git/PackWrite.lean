import Akuma.Git.Pack
import Akuma.Lib.Bytes

/-!
# Writing a pack

`create_pack` and `write_pack_object` of `userspace/scratch/src/pack_write.rs`:
the pack header, then each object of the store named by the list, whole,
as its type-and-size header and its zlib stream, then the SHA-1 of all
that. `zlib::compress` and `sha1::hash` stand for code outside the model
and are parameters (`compress`, `sha1`).

Both parsers read such a pack back. With a compressor whose streams the
inflater reads back, each taking exactly its own bytes (`ReadsBack`), and
fewer than `2 ^ 32` objects (the count is written as a `u32`), the batch
parser and the streaming parser, however the pack is cut into chunks,
store exactly the objects of the list, in its order, and the streaming
parser counts them all (`createPack_reads_back`).
-/

namespace Akuma.Git

open ByteCodec

/-- `ObjectType::pack_type`. -/
def ObjectType.packType : ObjectType → Nat
  | .commit => 1
  | .tree => 2
  | .blob => 3
  | .tag => 4

/-- The loop of `write_pack_object` over `remaining_size`: seven bits a
byte, the high bit set on every byte but the last. -/
def sizeContinuation (remaining : Nat) : List Nat :=
  if _h : 0 < remaining then
    let byte := remaining &&& 0x7f
    let remaining' := remaining >>> 7
    (if 0 < remaining' then byte ||| 0x80 else byte) :: sizeContinuation remaining'
  else []
termination_by remaining
decreasing_by
  simp only [Nat.shiftRight_eq_div_pow]
  omega

/-- The type-and-size header `write_pack_object` writes: the type and the
low four bits of the size, then the rest of the size. -/
def typeAndSizeHeader (typeNum size : Nat) : List Nat :=
  let firstByte := (typeNum <<< 4) ||| (size &&& 0x0f)
  let remaining := size >>> 4
  (if 0 < remaining then firstByte ||| 0x80 else firstByte) :: sizeContinuation remaining

/-! ## The header's bytes

Each byte of a header is below `256`, and its high bit is set exactly when
another byte of the header follows. -/

theorem or_0x80 {b : Nat} (hb : b < 128) : b ||| 0x80 = b + 128 := by
  have h := Nat.two_pow_add_eq_or_of_lt (show b < 2 ^ 7 from hb) 1
  rw [Nat.or_comm, show (0x80 : Nat) = 2 ^ 7 * 1 from rfl, ← h]
  omega

/-- The first byte before its continuation bit: the type over the low four
bits of the size. -/
theorem firstByte_eq (typeNum size : Nat) :
    (typeNum <<< 4) ||| (size &&& 0x0f) = 16 * typeNum + size % 16 := by
  rw [Nat.shiftLeft_eq, Nat.mul_comm, show (0x0f : Nat) = 2 ^ 4 - 1 from rfl, Nat.and_two_pow_sub_one_eq_mod,
    ← Nat.two_pow_add_eq_or_of_lt (Nat.mod_lt _ (by decide))]

theorem sizeContinuation_of_pos {remaining : Nat} (h : 0 < remaining) :
    sizeContinuation remaining =
      (if 0 < remaining / 128 then remaining % 128 + 128 else remaining % 128) ::
        sizeContinuation (remaining / 128) := by
  rw [sizeContinuation, dif_pos h]
  simp only [and_0x7f, Nat.shiftRight_eq_div_pow]
  split_ifs with hmore
  · rw [or_0x80 (Nat.mod_lt _ (by decide))]
  · rfl

theorem sizeContinuation_zero : sizeContinuation 0 = [] := by
  rw [sizeContinuation, dif_neg (Nat.lt_irrefl 0)]

/-- The streaming parser reads the continuation bytes to their end. -/
theorem typeSizeLoop_sizeContinuation {remaining : Nat} (h : 0 < remaining) (rest : List Nat)
    (size shift i : Nat) :
    ∃ size', typeSizeLoop (sizeContinuation remaining ++ rest) size shift i =
      some (size', i + (sizeContinuation remaining).length) := by
  -- induction on the size left, as the writer's loop runs
  induction remaining using Nat.strong_induction_on generalizing size shift i with
  | _ remaining ih =>
  rw [sizeContinuation_of_pos h]
  by_cases hmore : 0 < remaining / 128
  · obtain ⟨size', hloop⟩ := ih (remaining / 128) (by omega) hmore _ (shift + 7) (i + 1)
    refine ⟨size', ?_⟩
    rw [if_pos hmore, List.cons_append, typeSizeLoop, if_neg (add_0x80_and_0x80 (by omega)), hloop,
      List.length_cons]
    congr 2
    omega
  · have hzero : remaining / 128 = 0 := by omega
    refine ⟨size ||| shlUsize (remaining % 128 &&& 0x7f) shift, ?_⟩
    rw [if_neg hmore, hzero, sizeContinuation_zero, List.cons_append, typeSizeLoop,
      if_pos (and_0x80_of_lt (by omega))]
    rfl

/-- The batch parser reads the continuation bytes to their end, after a
byte with its high bit set. -/
theorem sizeBytesLoop_sizeContinuation {remaining : Nat} (h : 0 < remaining) (rest : List Nat)
    {byte : Nat} (hbyte : byte &&& 0x80 ≠ 0) (size shift : Nat) :
    ∃ size', sizeBytesLoop (sizeContinuation remaining ++ rest) byte size shift =
      .ok (size', (sizeContinuation remaining).length) := by
  induction remaining using Nat.strong_induction_on generalizing byte size shift with
  | _ remaining ih =>
  rw [sizeContinuation_of_pos h, List.cons_append, sizeBytesLoop, if_neg hbyte]
  by_cases hmore : 0 < remaining / 128
  · rw [if_pos hmore]
    obtain ⟨size', hloop⟩ := ih (remaining / 128) (by omega) hmore
      (add_0x80_and_0x80 (Nat.mod_lt remaining (by decide)))
      (size ||| shlUsize ((remaining % 128 + 128) &&& 0x7f) shift) (shift + 7)
    rw [hloop]
    exact ⟨size', rfl⟩
  · rw [if_neg hmore, show remaining / 128 = 0 by omega, sizeContinuation_zero, List.nil_append,
      sizeBytesLoop.eq_def]
    simp only [and_0x80_of_lt (Nat.mod_lt remaining (by decide)), ↓reduceIte]
    exact ⟨_, rfl⟩

/-- The type bits of a header's first byte. -/
theorem typeBits_eq (b : Nat) : (b >>> 4) &&& 0x07 = b / 16 % 8 := by
  rw [Nat.shiftRight_eq_div_pow, show (0x07 : Nat) = 2 ^ 3 - 1 from rfl, Nat.and_two_pow_sub_one_eq_mod]

/-- The type bits of the header's first byte, continuation bit or not. -/
theorem typeBits_firstByte {typeNum : Nat} (htype : typeNum < 8) (size : Nat) :
    ((16 * typeNum + size % 16 + if 0 < size / 16 then 128 else 0) >>> 4) &&& 0x07 = typeNum := by
  rw [typeBits_eq]
  split <;> omega

/-- The header's first byte, as a number. -/
theorem typeAndSizeHeader_eq (typeNum size : Nat) (htype : typeNum < 8) :
    typeAndSizeHeader typeNum size =
      (16 * typeNum + size % 16 + if 0 < size / 16 then 128 else 0) :: sizeContinuation (size / 16) := by
  rw [typeAndSizeHeader]
  simp only [firstByte_eq, Nat.shiftRight_eq_div_pow]
  have hlt : 16 * typeNum + size % 16 < 128 := by omega
  split_ifs
  · rw [or_0x80 hlt]
  · rfl

/-- The streaming parser reads back the type of a header and its length. -/
theorem parseTypeAndSize_typeAndSizeHeader {typeNum : Nat} (htype : typeNum < 8) (size : Nat)
    (rest : List Nat) :
    ∃ size', StreamingPackParser.parseTypeAndSize (typeAndSizeHeader typeNum size ++ rest) =
      some (typeNum, size', (typeAndSizeHeader typeNum size).length) := by
  rw [typeAndSizeHeader_eq typeNum size htype, List.cons_append, StreamingPackParser.parseTypeAndSize]
  simp only [typeBits_firstByte htype]
  by_cases hmore : 0 < size / 16
  · -- the size goes on after the first byte
    obtain ⟨size', hloop⟩ := typeSizeLoop_sizeContinuation hmore rest
      ((16 * typeNum + size % 16 + 128) &&& 0x0f) 4 1
    simp only [if_pos hmore]
    rw [if_pos (add_0x80_and_0x80 (by omega)), hloop, List.length_cons]
    exact ⟨size', by simp [Nat.add_comm]⟩
  · simp only [if_neg hmore]
    rw [if_neg (not_not.mpr (and_0x80_of_lt (by omega))), show size / 16 = 0 by omega,
      sizeContinuation_zero]
    exact ⟨_, rfl⟩

/-- The batch parser reads back the type of a header and where it ends. -/
theorem PackParser.parseTypeAndSize_typeAndSizeHeader {typeNum : Nat} {objType : PackObjectType}
    (htype : PackObjectType.fromTypeBits typeNum = some objType) {data rest : List Nat} {pos size : Nat}
    (hdata : data.drop pos = typeAndSizeHeader typeNum size ++ rest) :
    ∃ size', PackParser.parseTypeAndSize data pos =
      .ok (objType, size', pos + (typeAndSizeHeader typeNum size).length) := by
  have hlt : typeNum < 8 := by
    unfold PackObjectType.fromTypeBits at htype
    split at htype <;> first | omega | cases htype
  rw [PackParser.parseTypeAndSize, hdata, typeAndSizeHeader_eq typeNum size hlt, List.cons_append]
  dsimp only
  rw [typeBits_firstByte hlt, htype]
  by_cases hmore : 0 < size / 16
  · simp only [if_pos hmore]
    obtain ⟨size', hloop⟩ := sizeBytesLoop_sizeContinuation hmore rest
      (add_0x80_and_0x80 (show 16 * typeNum + size % 16 < 0x80 by omega))
      ((16 * typeNum + size % 16 + 128) &&& 0x0f) 4
    rw [hloop]
    refine ⟨size', ?_⟩
    simp only [Except.map, List.length_cons, Except.ok.injEq, Prod.mk.injEq, true_and]
    omega
  · simp only [if_neg hmore]
    rw [show size / 16 = 0 by omega, sizeContinuation_zero, sizeBytesLoop.eq_def]
    simp only [and_0x80_of_lt (show 16 * typeNum + size % 16 + 0 < 0x80 by omega), ↓reduceIte]
    exact ⟨_, rfl⟩

section Write

variable (compress : List Nat → List Nat) (sha1 : List Nat → Sha1Hash)

/-- The bytes `write_pack_object` appends for an object. -/
def objectBytes (obj : ObjectType × List Nat) : List Nat :=
  typeAndSizeHeader obj.1.packType obj.2.length ++ compress obj.2

/-- `write_pack_object`: the bytes it appends for the object `sha` of the
store. -/
def writePackObject (store : ObjectStore) (sha : Sha1Hash) : Except String (List Nat) := do
  let (objType, content) ← store.readRawContent sha
  let compressed := compress content
  pure (typeAndSizeHeader objType.packType content.length ++ compressed)

/-- `u32::to_be_bytes`. -/
def u32Bytes (n : Nat) : List Nat := (beBytes n 4).map UInt8.toNat

/-- `create_pack`. -/
def createPack (objects : List Sha1Hash) (store : ObjectStore) : Except String (List Nat) := do
  let header := packMagic ++ u32Bytes 2 ++ u32Bytes objects.length
  let pack ← objects.foldlM (fun pack sha => (pack ++ ·) <$> writePackObject compress store sha) header
  pure (pack ++ sha1 pack)

theorem writePackObject_eq (store : ObjectStore) (sha : Sha1Hash) :
    writePackObject compress store sha = objectBytes compress <$> store.readRawContent sha := by
  unfold writePackObject
  cases store.readRawContent sha <;> rfl

/-- The objects written after `pack`, when the store has them all. -/
theorem foldlM_writePackObject {store : ObjectStore} :
    ∀ {shas : List Sha1Hash} {objs : List (ObjectType × List Nat)} (pack : List Nat),
      shas.mapM store.readRawContent = .ok objs →
      shas.foldlM (fun pack sha => (pack ++ ·) <$> writePackObject compress store sha) pack =
        .ok (pack ++ (objs.map (objectBytes compress)).flatten)
  | [], objs, pack, h => by
    simp only [List.mapM_nil, pure, Except.pure, Except.ok.injEq] at h
    subst h
    simp [pure, Except.pure]
  | sha :: shas, objs, pack, h => by
    rw [List.mapM_cons] at h
    obtain ⟨obj, hobj, h⟩ := Panicking.bind_eq_ok.mp h
    obtain ⟨rest, hrest, h⟩ := Panicking.bind_eq_ok.mp h
    simp only [pure, Except.pure, Except.ok.injEq] at h
    subst h
    rw [List.foldlM_cons, writePackObject_eq, hobj]
    simp only [Panicking.map_ok, Panicking.ok_bind]
    rw [foldlM_writePackObject _ hrest]
    simp

/-- `create_pack` of objects all in the store: the header, the objects, and
the hash of those as the trailer. -/
theorem createPack_eq {store : ObjectStore} {shas : List Sha1Hash} {objs : List (ObjectType × List Nat)}
    (h : shas.mapM store.readRawContent = .ok objs) :
    createPack compress sha1 shas store =
      let pack := packMagic ++ u32Bytes 2 ++ u32Bytes shas.length ++ (objs.map (objectBytes compress)).flatten
      .ok (pack ++ sha1 pack) := by
  rw [createPack]
  simp only
  rw [foldlM_writePackObject compress _ h]
  rfl

end Write

/-! ## Reading a written pack back -/

theorem length_u32Bytes (n : Nat) : (u32Bytes n).length = 4 := by
  simp [u32Bytes]

/-- The parsers read back the count the writer wrote, as a `u32`. -/
theorem beU32_u32Bytes (n : Nat) : beU32 (u32Bytes n) = n % 2 ^ 32 := by
  have h := beNat_beBytes n 4
  rw [beNat] at h
  rw [u32Bytes, beU32, List.foldl_map, h]
  norm_num

/-- The twelve bytes of the header, and what follows them. -/
theorem packHeader_split (n : Nat) (rest : List Nat) :
    let pack := packMagic ++ u32Bytes 2 ++ u32Bytes n ++ rest
    12 ≤ pack.length ∧ pack.take 4 = packMagic ∧ (pack.take 8).drop 4 = u32Bytes 2 ∧
      (pack.take 12).drop 8 = u32Bytes n ∧ pack.drop 12 = rest := by
  intro pack
  have h4 := length_u32Bytes
  have hmagic : packMagic.length = 4 := rfl
  have h8 : (packMagic ++ u32Bytes 2).length = 8 := by simp [h4, hmagic]
  have h12 : (packMagic ++ u32Bytes 2 ++ u32Bytes n).length = 12 := by simp [h4, hmagic]
  have htake12 : pack.take 12 = packMagic ++ u32Bytes 2 ++ u32Bytes n := List.take_left' h12
  refine ⟨?_, ?_, ?_, ?_, List.drop_left' h12⟩
  · rw [List.length_append, h12]
    omega
  · simp only [pack, List.append_assoc]
    exact List.take_left' hmagic
  · have htake8 : pack.take 8 = packMagic ++ u32Bytes 2 := by
      simp only [pack, List.append_assoc]
      rw [← List.append_assoc]
      exact List.take_left' h8
    rw [htake8]
    exact List.drop_left' hmagic
  · rw [htake12]
    exact List.drop_left' h8

/-- What the parsers need of `zlib::compress` and `decompress_with_consumed`
together: a compressed stream inflates back to its content and takes
exactly its own bytes, whatever follows it. -/
def ReadsBack (compress : List Nat → List Nat)
    (inflate : List Nat → Except String (List Nat × Nat)) : Prop :=
  ∀ content rest, inflate (compress content ++ rest) = .ok (content, (compress content).length)

/-- A stream that reads back is never empty: an empty one would read back
as two contents. -/
theorem ReadsBack.compress_ne_nil {compress : List Nat → List Nat}
    {inflate : List Nat → Except String (List Nat × Nat)} (h : ReadsBack compress inflate)
    (content : List Nat) : compress content ≠ [] := by
  intro hnil
  have h1 := h content (compress (0 :: content))
  have h2 := h (0 :: content) []
  rw [hnil, List.nil_append] at h1
  rw [List.append_nil, h1] at h2
  simp at h2

/-- A zlib stream of stored blocks reads back through `decompress_with_consumed`. -/
theorem compressStored_readsBack : ReadsBack Zlib.compressStored storedDecompress := by
  intro content rest
  simp only [storedDecompress, Zlib.inflate_compressStored]

theorem ObjectType.packType_lt (t : ObjectType) : t.packType < 8 := by
  cases t <;> decide

theorem ObjectType.packType_whole (t : ObjectType) :
    t.packType = 1 ∨ t.packType = 2 ∨ t.packType = 3 ∨ t.packType = 4 := by
  cases t <;> simp [ObjectType.packType]

theorem objectTypeOfBits_packType (t : ObjectType) :
    StreamingPackParser.objectTypeOfBits t.packType = .ok t := by
  cases t <;> rfl

theorem fromTypeBits_packType (t : ObjectType) :
    ∃ objType, PackObjectType.fromTypeBits t.packType = some objType ∧
      objType.toObjectType = some t := by
  cases t <;> exact ⟨_, rfl, rfl⟩

section Read

variable (hashObject : ObjectType → List Nat → Sha1Hash)

/-- The store after each object is written into it in turn. -/
def writeAll (store : ObjectStore) (objs : List (ObjectType × List Nat)) : ObjectStore :=
  objs.foldl (fun st obj => (st.writeContent hashObject obj.1 obj.2).1) store

namespace StreamingPackParser

/-- The header of a whole object moves to its data. -/
theorem processObjectHeader_whole {p : StreamingPackParser} {offset typeNum size headerLen : Nat}
    (hparse : parseTypeAndSize p.buf = some (typeNum, size, headerLen))
    (hwhole : typeNum = 1 ∨ typeNum = 2 ∨ typeNum = 3 ∨ typeNum = 4) :
    (processObjectHeader p offset).run = .ok (.ok (.continue,
      { p with state := .objectData offset typeNum headerLen (parseTypeAndSize_pos hparse) })) := by
  have hne : p.buf ≠ [] := by
    intro hnil
    rw [hnil] at hparse
    simp [parseTypeAndSize] at hparse
  unfold processObjectHeader
  rw [if_neg hne]
  split
  · rename_i hnone
    rw [hparse] at hnone
    cases hnone
  · rename_i typeNum' size' headerLen' hsome
    rw [hparse] at hsome
    cases hsome
    rw [if_pos hwhole]
    rfl

/-- The data of a whole object whose stream is all in: stored, recorded,
counted, and consumed. -/
theorem processObjectData_whole (inflate : List Nat → Except String (List Nat × Nat))
    {p : StreamingPackParser} {offset objType headerLen consumed : Nat} {content : List Nat}
    {t : ObjectType} (hlen : headerLen < p.buf.length)
    (hstream : inflate (p.buf.drop headerLen) = .ok (content, consumed))
    (htype : objectTypeOfBits objType = .ok t) :
    (processObjectData inflate hashObject p offset objType headerLen).run = .ok (.ok (.continue,
      finishObject { p with
        store := (p.store.writeContent hashObject t content).1
        offsetMap := p.offsetMap.insert offset (t, (p.store.writeContent hashObject t content).2)
        objectsParsed := p.objectsParsed + 1 } (headerLen + consumed))) := by
  rw [processObjectData, if_neg (by omega)]
  simp only [hstream]
  rw [run_bind_of_eq_ok (by rw [run_ofResult, htype])]
  rfl

/-- The header of a written pack: its count, and the objects after it. -/
theorem processHeader_written {p : StreamingPackParser} (n : Nat) (rest : List Nat)
    (hbuf : p.buf = packMagic ++ u32Bytes 2 ++ u32Bytes n ++ rest) :
    (processHeader p).run = .ok (.ok (.continue, { p with
      objectCount := n % 2 ^ 32
      buf := rest
      currentOffset := 12
      state := if n % 2 ^ 32 = 0 then .done else .objectHeader 12 })) := by
  obtain ⟨hlen, hmagic, -, hcount, hrest⟩ := packHeader_split n rest
  rw [← hbuf] at hlen hmagic hcount hrest
  rw [processHeader, if_neg (by omega), if_neg (not_not.mpr hmagic), hcount, hrest, beU32_u32Bytes]
  rfl

section Stream

variable {compress : List Nat → List Nat} {inflate : List Nat → Except String (List Nat × Nat)}
  (hread : ReadsBack compress inflate)
include hread

/-- A written object at the front of the buffer: two steps of the loop store
it and move past it. -/
theorem feedLoop_object {p : StreamingPackParser} {t : ObjectType} {content rest : List Nat}
    (hbuf : p.buf = objectBytes compress (t, content) ++ rest)
    (hstate : p.state = .objectHeader p.currentOffset) :
    (feedLoop inflate hashObject p).run = (feedLoop inflate hashObject (finishObject { p with
        store := (p.store.writeContent hashObject t content).1
        offsetMap := p.offsetMap.insert p.currentOffset (t, (p.store.writeContent hashObject t content).2)
        objectsParsed := p.objectsParsed + 1 } (objectBytes compress (t, content)).length)).run := by
  have hbuf' : p.buf = typeAndSizeHeader t.packType content.length ++ (compress content ++ rest) := by
    rw [hbuf, objectBytes, List.append_assoc]
  obtain ⟨size, hparse⟩ := parseTypeAndSize_typeAndSizeHeader t.packType_lt content.length
    (compress content ++ rest)
  rw [← hbuf'] at hparse
  -- the header: the type is that of a whole object
  have hheader : (processBuffer inflate hashObject p).run = .ok (.ok (.continue,
      { p with state := .objectData p.currentOffset t.packType _ (parseTypeAndSize_pos hparse) })) := by
    simp only [processBuffer, hstate]
    exact processObjectHeader_whole hparse t.packType_whole
  -- the data: its stream reads back, and takes its own bytes
  have hstream : inflate (p.buf.drop (typeAndSizeHeader t.packType content.length).length) =
      .ok (content, (compress content).length) := by
    rw [hbuf', List.drop_left]
    exact hread content rest
  have hlen : (typeAndSizeHeader t.packType content.length).length < p.buf.length := by
    have hne := hread.compress_ne_nil content
    rw [hbuf', List.length_append, List.length_append]
    have := List.length_pos_iff.mpr hne
    omega
  have hdata := @processObjectData_whole hashObject inflate { p with
      state := .objectData p.currentOffset t.packType _ (parseTypeAndSize_pos hparse) }
    p.currentOffset _ _ _ _ _ hlen hstream (objectTypeOfBits_packType t)
  rw [run_feedLoop_of_continue inflate hashObject hheader,
    run_feedLoop_of_continue inflate hashObject (by simpa only [processBuffer] using hdata)]
  simp only [objectBytes, List.length_append]
  rfl

/-- The objects of a written pack after its header: the loop stores each in
turn, counts them all, and stops before the trailer. -/
theorem feedLoop_objects :
    ∀ (objs : List (ObjectType × List Nat)) (p : StreamingPackParser) (trailer : List Nat),
      p.buf = (objs.map (objectBytes compress)).flatten ++ trailer →
      p.objectsParsed + objs.length = p.objectCount →
      p.state = (if p.objectCount ≤ p.objectsParsed then .done else .objectHeader p.currentOffset) →
      ∃ q, (feedLoop inflate hashObject p).run = .ok (.ok (false, q)) ∧
        q.store = writeAll hashObject p.store objs ∧ q.objectsParsed = p.objectCount ∧
        q.pendingDeltas = p.pendingDeltas
  | [], p, _, _, hcount, hstate => by
    -- all counted: the parser is done
    simp only [List.length_nil, Nat.add_zero] at hcount
    rw [if_pos (le_of_eq hcount.symm)] at hstate
    refine ⟨p, ?_, rfl, hcount, rfl⟩
    rw [run_feedLoop]
    simp [processBuffer, hstate]
  | (t, content) :: objs, p, trailer, hbuf, hcount, hstate => by
    simp only [List.length_cons] at hcount
    rw [if_neg (by omega)] at hstate
    rw [List.map_cons, List.flatten_cons, List.append_assoc] at hbuf
    rw [feedLoop_object hashObject hread hbuf hstate]
    -- the rest of the pack from the next object on, with one more counted
    refine feedLoop_objects objs _ trailer ?_ ?_ rfl
    · simp [finishObject, advanceToNextObject, hbuf]
    · simp only [finishObject, advanceToNextObject]
      omega

end Stream

end StreamingPackParser

/-- What the scan records of an object `write_pack_object` wrote: a whole
object of its type, whose stream inflates to its content. -/
def EntryMeta.Whole (inflate : List Nat → Except String (List Nat × Nat)) (data : List Nat)
    (e : EntryMeta) (obj : ObjectType × List Nat) : Prop :=
  e.objType.toObjectType = some obj.1 ∧ e.ofsDeltaOffset = none ∧
    PackParser.decompressEntry inflate data e = .ok obj.2

/-- Whole objects are no `OFS_DELTA` bases to keep. -/
theorem needed_eq_nil {inflate : List Nat → Except String (List Nat × Nat)} {data : List Nat}
    {es : List EntryMeta} {objs : List (ObjectType × List Nat)}
    (h : List.Forall₂ (EntryMeta.Whole inflate data) es objs) :
    es.filterMap (fun e => e.ofsDeltaOffset.map (subUsize e.offset)) = [] := by
  induction h with
  | nil => rfl
  | cons hwhole _ ih =>
    rw [List.filterMap_cons, hwhole.2.1]
    exact ih

/-- Phase 2 over whole objects: each stored in turn, none left. -/
theorem storeWhole_written {inflate : List Nat → Except String (List Nat × Nat)} {data : List Nat}
    {es : List EntryMeta} {objs : List (ObjectType × List Nat)}
    (h : List.Forall₂ (EntryMeta.Whole inflate data) es objs) (st : ResolveState) :
    ∃ st', PackParser.storeWhole inflate hashObject data [] es st = .ok (st', []) ∧
      st'.store = writeAll hashObject st.store objs ∧
      st'.shas = st.shas ++ objs.map fun obj => hashObject obj.1 obj.2 := by
  induction h generalizing st with
  | nil => exact ⟨st, rfl, rfl, by simp⟩
  | @cons e obj es objs hwhole _ ih =>
    obtain ⟨htype, -, hcontent⟩ := hwhole
    obtain ⟨st', hst', hstore, hshas⟩ := ih (st.storeEntry hashObject [] e obj.1 obj.2)
    refine ⟨st', ?_, hstore, ?_⟩
    · rw [PackParser.storeWhole, htype]
      simp only [hcontent, Panicking.ok_bind]
      exact hst'
    · rw [hshas]
      simp [ResolveState.storeEntry, ObjectStore.writeContent]

section Batch

variable {compress : List Nat → List Nat} {inflate : List Nat → Except String (List Nat × Nat)}
  (hread : ReadsBack compress inflate)
include hread

/-- The scan of a written object. -/
theorem scanEntry_written {data rest : List Nat} {pos : Nat} {t : ObjectType} {content : List Nat}
    (hdata : data.drop pos = objectBytes compress (t, content) ++ rest) :
    ∃ e, PackParser.scanEntry inflate data pos =
        .ok (e, pos + (objectBytes compress (t, content)).length) ∧
      EntryMeta.Whole inflate data e (t, content) := by
  obtain ⟨objType, hbits, hwhole⟩ := fromTypeBits_packType t
  have hdata' : data.drop pos = typeAndSizeHeader t.packType content.length ++ (compress content ++ rest) := by
    rw [hdata, objectBytes, List.append_assoc]
  obtain ⟨size, hparse⟩ := PackParser.parseTypeAndSize_typeAndSizeHeader hbits hdata'
  set headerLen := (typeAndSizeHeader t.packType content.length).length
  have hstream : data.drop (pos + headerLen) = compress content ++ rest := by
    rw [← List.drop_drop, hdata', List.drop_left]
  refine ⟨⟨pos, objType, pos + headerLen, (compress content).length, none, none⟩, ?_, hwhole, rfl, ?_⟩
  · -- a whole object has no base to read before its stream
    have hlen : (objectBytes compress (t, content)).length = headerLen + (compress content).length := by
      simp [objectBytes, headerLen]
    rw [PackParser.scanEntry, hparse, hlen, ← Nat.add_assoc]
    cases objType <;> simp_all [PackObjectType.toObjectType, hread content rest]
  · rw [PackParser.decompressEntry, hstream, List.take_left, ← List.append_nil (compress content),
      hread content []]
    rfl

/-- The scan of written objects, one after another. -/
theorem scanAll_written :
    ∀ (objs : List (ObjectType × List Nat)) {data trailer : List Nat} {pos : Nat},
      data.drop pos = (objs.map (objectBytes compress)).flatten ++ trailer →
      ∃ es, PackParser.scanAll inflate data objs.length pos = .ok es ∧
        List.Forall₂ (EntryMeta.Whole inflate data) es objs
  | [], _, _, _, _ => ⟨[], rfl, .nil⟩
  | (t, content) :: objs, data, trailer, pos, hdata => by
    rw [List.map_cons, List.flatten_cons, List.append_assoc] at hdata
    obtain ⟨e, he, hwhole⟩ := scanEntry_written hread hdata
    have hnext : data.drop (pos + (objectBytes compress (t, content)).length) =
        (objs.map (objectBytes compress)).flatten ++ trailer := by
      rw [← List.drop_drop, hdata, List.drop_left]
    obtain ⟨es, hes, hall⟩ := scanAll_written objs hnext
    refine ⟨e :: es, ?_, .cons hwhole hall⟩
    rw [List.length_cons, PackParser.scanAll, he]
    simp only [Panicking.ok_bind, hes]
    rfl

/-- The batch parser over a written pack: all its objects stored in order,
and their hashes. -/
theorem batchParse_written (store : ObjectStore) (objs : List (ObjectType × List Nat))
    (hcount : objs.length < 2 ^ 32) (trailer : List Nat) :
    (batchParse inflate hashObject store
        (packMagic ++ u32Bytes 2 ++ u32Bytes objs.length ++ (objs.map (objectBytes compress)).flatten ++
          trailer)).run =
      .ok (.ok (writeAll hashObject store objs, objs.map fun obj => hashObject obj.1 obj.2)) := by
  obtain ⟨hlen, hmagic, hversion, hcountBytes, hrest⟩ :=
    packHeader_split objs.length ((objs.map (objectBytes compress)).flatten ++ trailer)
  simp only [← List.append_assoc] at hlen hmagic hversion hcountBytes hrest
  set pack := packMagic ++ u32Bytes 2 ++ u32Bytes objs.length ++ (objs.map (objectBytes compress)).flatten ++
    trailer
  -- the header passes every check of `PackParser::new`
  have hnew : PackParser.new pack = .ok ⟨pack, 12, objs.length⟩ := by
    rw [PackParser.new, if_neg (by omega), if_neg (not_not.mpr hmagic), hversion, beU32_u32Bytes,
      hcountBytes, beU32_u32Bytes, Nat.mod_eq_of_lt hcount]
    rfl
  obtain ⟨es, hes, hall⟩ := scanAll_written hread objs hrest
  obtain ⟨st, hst, hstore, hshas⟩ := storeWhole_written hashObject hall ⟨store, [], .empty, .empty⟩
  rw [batchParse, run_bind_of_eq_ok (by rw [run_ofResult, hnew]), PackParser.parseAll]
  dsimp only
  rw [run_bind_of_eq_ok (by rw [run_ofResult, hes]), needed_eq_nil hall,
    run_bind_of_eq_ok (by rw [run_ofResult, hst])]
  dsimp only
  rw [PackParser.resolveLoop, run_bind_of_eq_ok (run_pure st), hstore, hshas]
  rfl

end Batch

/-- The streaming parser fed a written pack in one chunk stores its
objects in order and counts them. -/
theorem streamParse_written {compress : List Nat → List Nat}
    {inflate : List Nat → Except String (List Nat × Nat)} (hread : ReadsBack compress inflate)
    (store : ObjectStore) (objs : List (ObjectType × List Nat)) (hcount : objs.length < 2 ^ 32)
    (trailer : List Nat) :
    (streamParse inflate hashObject store
        [packMagic ++ u32Bytes 2 ++ u32Bytes objs.length ++ (objs.map (objectBytes compress)).flatten ++
          trailer]).run = .ok (.ok (writeAll hashObject store objs, objs.length)) := by
  set pack := packMagic ++ u32Bytes 2 ++ u32Bytes objs.length ++
    ((objs.map (objectBytes compress)).flatten ++ trailer)
  have hpack : packMagic ++ u32Bytes 2 ++ u32Bytes objs.length ++ (objs.map (objectBytes compress)).flatten ++
      trailer = pack := by simp only [pack, List.append_assoc]
  have hheader := StreamingPackParser.processHeader_written
    (p := { StreamingPackParser.new store with buf := (StreamingPackParser.new store).buf ++ pack })
    objs.length ((objs.map (objectBytes compress)).flatten ++ trailer) rfl
  rw [Nat.mod_eq_of_lt hcount] at hheader
  -- then every object, in order
  let p₁ : StreamingPackParser := { StreamingPackParser.new store with
    objectCount := objs.length
    buf := (objs.map (objectBytes compress)).flatten ++ trailer
    currentOffset := 12
    state := if objs.length = 0 then .done else .objectHeader 12 }
  obtain ⟨q, hq, hstore, hparsed, hpending⟩ := StreamingPackParser.feedLoop_objects hashObject hread objs
    p₁ trailer rfl (Nat.zero_add _) (by simp only [p₁, StreamingPackParser.new, Nat.le_zero])
  have hfeed : (StreamingPackParser.feed inflate hashObject (StreamingPackParser.new store) pack).run =
      .ok (.ok (false, q)) :=
    (StreamingPackParser.run_feedLoop_of_continue inflate hashObject
      (p := { StreamingPackParser.new store with buf := (StreamingPackParser.new store).buf ++ pack })
      hheader).trans hq
  have hfed : (StreamingPackParser.feedAll inflate hashObject (StreamingPackParser.new store) [pack]).run =
      .ok (.ok q) := by
    simp only [StreamingPackParser.feedAll, List.foldlM_cons, List.foldlM_nil, bind_pure]
    rw [ExceptT.run_map, hfeed]
    rfl
  have hfinish := StreamingPackParser.finish_of_no_pending hashObject (hpending.trans rfl)
  rw [hpack, streamParse, run_bind_of_eq_ok hfed, run_bind_of_eq_ok hfinish]
  dsimp only
  rw [hstore, hparsed]
  rfl

/-- `create_pack` read back. With a compressor whose streams the inflater
reads back, an inflater that stops at the end of its stream, and fewer than
`2 ^ 32` objects, the batch parser and the streaming parser, however the
pack is cut into chunks, both store exactly the objects the list names, in
its order, over any store. -/
theorem createPack_reads_back {compress : List Nat → List Nat}
    {inflate : List Nat → Except String (List Nat × Nat)} (hread : ReadsBack compress inflate)
    (hstop : StopsAtStreamEnd inflate) (sha1 : List Nat → Sha1Hash) (src store : ObjectStore)
    (shas : List Sha1Hash) (objs : List (ObjectType × List Nat))
    (hobjs : shas.mapM src.readRawContent = .ok objs) (hcount : shas.length < 2 ^ 32) :
    ∃ pack, createPack compress sha1 shas src = .ok pack ∧
      (batchParse inflate hashObject store pack).run =
        .ok (.ok (writeAll hashObject store objs, objs.map fun obj => hashObject obj.1 obj.2)) ∧
      ∀ chunks : List (List Nat), chunks.flatten = pack →
        (streamParse inflate hashObject store chunks).run =
          .ok (.ok (writeAll hashObject store objs, shas.length)) := by
  have hlen : objs.length = shas.length := Panicking.length_of_mapM_ok hobjs
  rw [← hlen] at hcount ⊢
  refine ⟨_, createPack_eq compress sha1 hobjs, ?_, ?_⟩
  · rw [← hlen]
    exact batchParse_written hashObject hread store objs hcount _
  · intro chunks hchunks
    rw [streamParse_eq_whole hashObject hstop, hchunks, ← hlen]
    exact streamParse_written hashObject hread store objs hcount _

end Read

/-- One blob `a`, filed under its Git hash, packed in stored zlib blocks
with a SHA-1 trailer, then read into an empty store, which files it under
the same hash. -/
theorem createPack_reads_back_one_blob :
    ReadsBack Zlib.compressStored storedDecompress ∧ StopsAtStreamEnd storedDecompress ∧
      [contentHash Sha1.digest .blob [0x61]].mapM
          (ObjectStore.mk (OrdMap.empty.insert (contentHash Sha1.digest .blob [0x61]) (.blob, [0x61]))).readRawContent =
        .ok [(.blob, [0x61])] ∧
      [contentHash Sha1.digest .blob [0x61]].length < 2 ^ 32 ∧
      ∃ pack, createPack Zlib.compressStored Sha1.digest [contentHash Sha1.digest .blob [0x61]]
          (ObjectStore.mk (OrdMap.empty.insert (contentHash Sha1.digest .blob [0x61]) (.blob, [0x61]))) = .ok pack ∧
        (batchParse storedDecompress (contentHash Sha1.digest) ⟨.empty⟩ pack).run =
          .ok (.ok (writeAll (contentHash Sha1.digest) ⟨.empty⟩ [(.blob, [0x61])],
            [contentHash Sha1.digest .blob [0x61]])) ∧
        ∀ chunks : List (List Nat), chunks.flatten = pack →
          (streamParse storedDecompress (contentHash Sha1.digest) ⟨.empty⟩ chunks).run =
            .ok (.ok (writeAll (contentHash Sha1.digest) ⟨.empty⟩ [(.blob, [0x61])], 1)) := by
  have hobjs : [contentHash Sha1.digest .blob [0x61]].mapM
      (ObjectStore.mk (OrdMap.empty.insert (contentHash Sha1.digest .blob [0x61]) (.blob, [0x61]))).readRawContent =
        .ok [(.blob, [0x61])] := by
    decide +kernel
  exact ⟨compressStored_readsBack, storedDecompress_stopsAtStreamEnd, hobjs, by decide,
    createPack_reads_back (contentHash Sha1.digest) compressStored_readsBack storedDecompress_stopsAtStreamEnd
      Sha1.digest _ ⟨.empty⟩ _ _ hobjs (by decide)⟩

end Akuma.Git
