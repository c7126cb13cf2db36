import Akuma.Git.Http
import Akuma.Git.Sideband
import Akuma.Git.PackWrite

/-!
# Fetching a pack

`ProtocolClient::fetch_pack_streaming` of `protocol.rs` posts the request,
reads the response through `process_pack_streaming` with a processor that
runs each piece of the body through the sideband demultiplexer and gathers
the pack data, then parses the pack with `PackParser` and stores its objects.
The connection, the TLS session and the request written to it are left out:
the model starts from the reads of the response.

The three layers each take their input in pieces of any size: the read loop
hands the processor the decoded body in pieces it does not choose
(`processPackStreaming_chunked`), the demultiplexer makes the same of any
pieces of a stream of packets, and the pack parser is given the whole pack.
So a server that answers with a chunked response whose body is a sideband
stream carrying a pack written by `create_pack` has its objects stored, all
and in order, however the response is cut into reads
(`fetchPackStreaming_stores_created_pack`).
-/

namespace Akuma.Git

open Decoding

/-- The capabilities of the server that `fetch_pack_streaming` reads. -/
structure Capabilities where
  sideBand : Bool
  sideBand64k : Bool
  deriving DecidableEq, Repr

/-- The closure `fetch_pack_streaming` hands to `process_pack_streaming`:
each piece through the demultiplexer, the pack data gathered. It never asks
to stop. -/
def fetchProcessor (st : SidebandState × List Nat) (chunk : List Nat) :
    Except String (Bool × (SidebandState × List Nat)) :=
  (st.1.process chunk).map fun r => (true, (r.2, if r.1 = [] then st.2 else st.2 ++ r.1))

/-- With the sideband on, the processor over pieces in turn is the
demultiplexer's calls over them, with their pack data gathered. -/
theorem processAll_fetchProcessor :
    ∀ (pieces : List (List Nat)) {sb : SidebandState} (acc : List Nat), sb.enabled = true →
      processAll fetchProcessor (sb, acc) pieces =
        (sidebandDecoder.feedAll sb pieces).map fun r => (r.2, acc ++ r.1)
  | [], sb, acc, _ => by simp [processAll, Decoder.feedAll, Except.map]
  | x :: pieces, sb, acc, hsb => by
    rw [processAll, fetchProcessor, SidebandState.process_of_enabled hsb, Decoder.feedAll]
    dsimp only
    cases hfeed : sidebandDecoder.feed sb x with
    | error e => rfl
    | ok r =>
      -- the pack data of this call, then that of the others
      have hsb' : r.2.enabled = true := (SidebandState.feed_enabled hfeed).trans hsb
      simp only [Except.map, Except.bind, Bool.true_eq_false, if_false]
      rw [processAll_fetchProcessor pieces _ hsb']
      cases hrest : sidebandDecoder.feedAll r.2 pieces with
      | error e => rfl
      | ok q =>
        by_cases hr : r.1 = []
        · simp [hr, Decoder.prepend, Except.map]
        · simp [hr, Decoder.prepend, Except.map, List.append_assoc]

section Fetch

variable (inflate : List Nat → Except String (List Nat × Nat)) (hashObject : ObjectType → List Nat → Sha1Hash)

/-- `fetch_pack_streaming` from the response on: the pack downloaded through
the demultiplexer, parsed by `PackParser` and its objects stored; the store
and the number of objects stored, as a `u32`. -/
def fetchPackStreaming (caps : Capabilities) (store : ObjectStore) (reads : List (Option (List Nat))) :
    PackM (ObjectStore × Nat) := do
  let useSideband := caps.sideBand || caps.sideBand64k
  let (_, packData) ← ofResult (processPackStreaming fetchProcessor (SidebandState.new useSideband, []) reads)
  let (store', shas) ← batchParse inflate hashObject store packData
  pure (store', shas.length % 2 ^ 32)

/-- A fetch from a server that answers as a Git server does, for objects it
packs with `create_pack`: a header that ends at its first blank line, with
status 200 and a chunked transfer; a chunked body, each chunk not empty and
of a size a `usize` holds; in it a stream of sideband packets, each of a
length that fits its four digits, whose band 1 carries the pack and with no
error on band 3. With a compressor whose streams the inflater reads back and
fewer than `2 ^ 32` objects, however the response is cut into reads and
whatever comes after it, the fetch stores exactly the packed objects, in
order, over any store, and counts them. -/
theorem fetchPackStreaming_stores_created_pack {compress : List Nat → List Nat}
    (hread : ReadsBack compress inflate) (sha1 : List Nat → Sha1Hash) (src store : ObjectStore)
    (shas : List Sha1Hash) (objs : List (ObjectType × List Nat)) (hobjs : shas.mapM src.readRawContent = .ok objs)
    (hcount : shas.length < 2 ^ 32) (pack : List Nat) (hpack : createPack compress sha1 shas src = .ok pack)
    (pkts : List Pkt) (hfit : ∀ p ∈ pkts, p.Fits) (hdata : (pkts.mapM Pkt.payload).map List.flatten = .ok pack)
    (chunks : List (List Nat)) (hchunks : ∀ c ∈ chunks, c ≠ [] ∧ c.length < 2 ^ 64)
    (hbody : chunks.flatten = pktStream pkts) (header : List Nat) (headers : List (List Char × List Char))
    (hend : findHeadersEnd header = some header.length) (hparse : parseHeaders header = .ok (200, headers, true))
    (trailer : List Nat) (reads : List (List Nat)) (hreads : ∀ r ∈ reads, r ≠ [])
    (hcut : reads.flatten = header ++ chunkedBody chunks ++ trailer) (caps : Capabilities)
    (hcaps : (caps.sideBand || caps.sideBand64k) = true) (after : List (Option (List Nat))) :
    (fetchPackStreaming inflate hashObject caps store (reads.map some ++ after)).run =
      .ok (.ok (writeAll hashObject store objs, shas.length)) := by
  have hlen : objs.length = shas.length := Panicking.length_of_mapM_ok hobjs
  -- the pack `create_pack` writes: its header, the objects, the trailer
  have hpack' : pack = packMagic ++ u32Bytes 2 ++ u32Bytes objs.length ++ (objs.map (objectBytes compress)).flatten ++
      sha1 (packMagic ++ u32Bytes 2 ++ u32Bytes shas.length ++ (objs.map (objectBytes compress)).flatten) := by
    rw [createPack_eq compress sha1 hobjs] at hpack
    rw [hlen]
    exact (Except.ok.inj hpack).symm
  -- the chunked body decodes to the sideband stream
  have hdecode : ChunkedState.new.process (chunkedBody chunks ++ trailer) =
      .ok (chunks.flatten, ⟨trailer, 0, .expectingSize, true⟩) :=
    ChunkedState.drain_chunkedBody chunks hchunks rfl rfl (by simp [ChunkedState.new])
  have hout : chunks.flatten ≠ [] := by
    -- the pack is not empty, so neither is the stream that carries it
    rw [hbody]
    refine pktStream_ne_nil fun hnil => ?_
    subst hnil
    simp [Except.map, hpack', packMagic] at hdata
  obtain ⟨pieces, hflat, -, hloop⟩ := processPackStreaming_chunked fetchProcessor hend hparse hdecode rfl hout
    (SidebandState.new true, []) reads hreads (by rw [hcut, List.append_assoc]) after
  -- the demultiplexer, however the decoded body came, gives the pack
  have hdemux : sidebandDecoder.feedAll (SidebandState.new true) pieces = .ok (pack, SidebandState.new true) := by
    rw [Decoder.feedAll_eq_feed sidebandDecoder_extends SidebandState.inStream_append pieces rfl
        ⟨rfl, pkts, hfit, by simp [SidebandState.new, hflat, hbody]⟩,
      Decoder.feed, sidebandDecoder_append,
      SidebandState.drain_pktStream pkts rfl hfit (by simp [SidebandState.new, hflat, hbody])]
    cases hmap : pkts.mapM Pkt.payload with
    | error e => rw [hmap] at hdata; cases hdata
    | ok datas =>
      rw [hmap] at hdata
      cases hdata
      rfl
  have hdownload : processPackStreaming fetchProcessor (SidebandState.new (caps.sideBand || caps.sideBand64k), [])
      (reads.map some ++ after) = .ok (SidebandState.new true, pack) := by
    rw [hcaps, hloop, processAll_fetchProcessor pieces [] rfl, hdemux]
    rfl
  -- the pack parsed whole
  rw [fetchPackStreaming]
  simp only
  rw [run_bind_of_eq_ok (by rw [run_ofResult, hdownload]), hpack']
  dsimp only
  rw [run_bind_of_eq_ok (batchParse_written hashObject hread store objs (hlen ▸ hcount) _)]
  simpa [hlen] using hcount

/-- One blob `a` fetched: the pack `create_pack` writes for it, with its
content in a stored zlib block and a SHA-1 trailer, sent as one line of band
1 and a flush, in one chunk after a chunked 200 header, with the response
cut in two reads inside the pkt-line's length. The fetch files the blob
under its Git hash. -/
theorem fetchPackStreaming_one_blob :
    createPack Zlib.compressStored Sha1.digest [contentHash Sha1.digest .blob [0x61]]
        (ObjectStore.mk (OrdMap.empty.insert (contentHash Sha1.digest .blob [0x61]) (.blob, [0x61]))) =
        .ok [0x50, 0x41, 0x43, 0x4b, 0, 0, 0, 2, 0, 0, 0, 1, 0x31, 0x78, 0x01, 1, 1, 0, 0xfe, 0xff, 0x61, 0, 0x62, 0, 0x62,
          0x88, 0x9e, 0xb8, 0x51, 0xcb, 0x65, 0x2b, 0xed, 0xbd, 0x9c, 0x38, 0x9e, 0x8a, 0x28, 0xf7, 0x78, 0x26, 0x34, 0x97,
          0x5a] ∧
      parseHeaders [72, 84, 84, 80, 47, 49, 46, 49, 32, 50, 48, 48, 32, 79, 75, 13, 10, 84, 114, 97, 110, 115, 102,
          101, 114, 45, 69, 110, 99, 111, 100, 105, 110, 103, 58, 32, 99, 104, 117, 110, 107, 101, 100, 13, 10, 13, 10] =
        .ok (200, [("Transfer-Encoding".toList, "chunked".toList)], true) ∧
      (fetchPackStreaming storedDecompress (contentHash Sha1.digest) ⟨true, false⟩ ⟨.empty⟩
        ([[72, 84, 84, 80, 47, 49, 46, 49, 32, 50, 48, 48, 32, 79, 75, 13, 10, 84, 114, 97, 110, 115, 102,
            101, 114, 45, 69, 110, 99, 111, 100, 105, 110, 103, 58, 32, 99, 104, 117, 110, 107, 101, 100, 13, 10, 13, 10,
            0x33, 0x36, 13, 10, 0x30, 0x30, 0x33],
          [0x32, 1, 0x50, 0x41, 0x43, 0x4b, 0, 0, 0, 2, 0, 0, 0, 1, 0x31, 0x78, 0x01, 1, 1, 0, 0xfe, 0xff, 0x61, 0, 0x62, 0, 0x62,
          0x88, 0x9e, 0xb8, 0x51, 0xcb, 0x65, 0x2b, 0xed, 0xbd, 0x9c, 0x38, 0x9e, 0x8a, 0x28, 0xf7, 0x78, 0x26, 0x34, 0x97,
          0x5a, 0x30, 0x30, 0x30, 0x30, 13, 10, 0x30, 13, 10, 13, 10]].map some ++ [])).run =
        .ok (.ok (writeAll (contentHash Sha1.digest) ⟨.empty⟩ [(.blob, [0x61])], 1)) := by
  have hheader : typeAndSizeHeader 3 1 = [0x31] := by
    rw [typeAndSizeHeader_eq 3 1 (by decide), show 1 / 16 = 0 from rfl, sizeContinuation_zero]
    rfl
  have hobjs : [contentHash Sha1.digest .blob [0x61]].mapM
      (ObjectStore.mk (OrdMap.empty.insert (contentHash Sha1.digest .blob [0x61]) (.blob, [0x61]))).readRawContent =
        .ok [(.blob, [0x61])] := by
    decide +kernel
  have hpack : createPack Zlib.compressStored Sha1.digest [contentHash Sha1.digest .blob [0x61]]
      (ObjectStore.mk (OrdMap.empty.insert (contentHash Sha1.digest .blob [0x61]) (.blob, [0x61]))) =
        .ok [0x50, 0x41, 0x43, 0x4b, 0, 0, 0, 2, 0, 0, 0, 1, 0x31, 0x78, 0x01, 1, 1, 0, 0xfe, 0xff, 0x61, 0, 0x62, 0, 0x62,
          0x88, 0x9e, 0xb8, 0x51, 0xcb, 0x65, 0x2b, 0xed, 0xbd, 0x9c, 0x38, 0x9e, 0x8a, 0x28, 0xf7, 0x78, 0x26, 0x34, 0x97,
          0x5a] := by
    rw [createPack_eq Zlib.compressStored Sha1.digest hobjs]
    simp only [List.map_cons, List.map_nil, List.flatten_cons, List.flatten_nil, objectBytes,
      show ObjectType.blob.packType = 3 from rfl, List.length_singleton, hheader]
    decide +kernel
  have hparse : parseHeaders [72, 84, 84, 80, 47, 49, 46, 49, 32, 50, 48, 48, 32, 79, 75, 13, 10, 84, 114, 97, 110,
      115, 102, 101, 114, 45, 69, 110, 99, 111, 100, 105, 110, 103, 58, 32, 99, 104, 117, 110, 107, 101, 100, 13, 10,
      13, 10] = .ok (200, [("Transfer-Encoding".toList, "chunked".toList)], true) := rfl
  exact ⟨hpack, hparse, fetchPackStreaming_stores_created_pack storedDecompress (contentHash Sha1.digest)
    compressStored_readsBack Sha1.digest _ ⟨.empty⟩ _ [(.blob, [0x61])] hobjs (by decide) _ hpack
    [.line [1, 0x50, 0x41, 0x43, 0x4b, 0, 0, 0, 2, 0, 0, 0, 1, 0x31, 0x78, 0x01, 1, 1, 0, 0xfe, 0xff, 0x61, 0, 0x62, 0, 0x62,
          0x88, 0x9e, 0xb8, 0x51, 0xcb, 0x65, 0x2b, 0xed, 0xbd, 0x9c, 0x38, 0x9e, 0x8a, 0x28, 0xf7, 0x78, 0x26, 0x34, 0x97,
          0x5a], .flush] (by decide) rfl
    [pktStream [.line [1, 0x50, 0x41, 0x43, 0x4b, 0, 0, 0, 2, 0, 0, 0, 1, 0x31, 0x78, 0x01, 1, 1, 0, 0xfe, 0xff, 0x61, 0, 0x62, 0, 0x62,
          0x88, 0x9e, 0xb8, 0x51, 0xcb, 0x65, 0x2b, 0xed, 0xbd, 0x9c, 0x38, 0x9e, 0x8a, 0x28, 0xf7, 0x78, 0x26, 0x34, 0x97,
          0x5a], .flush]] (by decide) rfl
    _ _ rfl hparse [13, 10] _ (by decide) rfl ⟨true, false⟩ rfl []⟩

end Fetch

end Akuma.Git
