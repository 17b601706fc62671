import GiveMePi.Binary.BinarySplitter
import GiveMePi.Storage.ChunkFormat

/-! # Nodes as chunks

The values of a node go into a chunk of their own and come back from it unchanged, whether they are
compressed or not. -/

namespace GiveMePi.Storage

open Binary (BinaryNode)
open Checkpoint (ComputationIdentity BlockLocation BlockLocation.create BlockLocation.validate_eq_ok
  CheckpointBlockCodec.payloadBytes)

namespace BinaryNodeChunkAdapter

def toChunk (lz4 : Lz4) (node : BinaryNode) (computation : ComputationIdentity) (treeLevel : UInt32)
    (compression : CompressionAlgorithm) : Except Error Chunk := do
  throwIf (node.start ≥ node.stop)
    (.invalidArgument "Cannot convert an empty or inverted BinaryNode to a chunk")
  let location ← BlockLocation.create node.start node.stop treeLevel computation
  let identity ← ChunkIdentity.create computation location
  let metadata ← ChunkCodec.createMetadata lz4 identity node.p node.q node.t compression
  pure ⟨metadata, node.p, node.q, node.t⟩

def toBinaryNode (chunk : Chunk) : Except Error BinaryNode := do
  chunk.metadata.validate
  let location := chunk.metadata.identity.location
  pure ⟨location.start, location.stop, chunk.p, chunk.q, chunk.t⟩

end BinaryNodeChunkAdapter

/-! ## Compression -/

namespace CompressionCodec

theorem checkedSize_eq_ok {value limit : UInt64} {n : ℕ} :
    checkedSize value limit = .ok n ↔ value ≤ limit ∧ n = value.toNat := by
  simp only [checkedSize, bind_eq_ok, throwIf_eq_ok, pure_eq_ok, Except.ok.injEq, gt_iff_lt,
    UInt64.not_lt]
  constructor
  · intro h
    obtain ⟨_, hle, rfl⟩ := h
    exact ⟨hle, rfl⟩
  · intro h
    exact ⟨(), h.1, h.2.symm⟩

theorem checkedLz4Size_eq {n : ℕ} (h : n ≤ intMax) : checkedLz4Size n = .ok n := by
  rw [checkedLz4Size, throwIf_neg (not_lt.mpr h)]
  rfl

/-- A payload is compressed to the bytes that the algorithm has for it. -/
theorem compress_eq_ok {lz4 : Lz4} (hlz4 : lz4.IsLossless) {compression : CompressionAlgorithm}
    (hcompression : compression = .none ∨ compression = .lz4) {payload : Bytes}
    (hpayload : payload.length ≤ 2 ^ 30)
    (hstored : ∀ out, lz4.compressDefault payload (lz4.compressBound payload.length) = some out →
      compression = .lz4 → out.length ≤ 2 ^ 30) :
    ∃ stored : Bytes, compress lz4 compression payload maxChunkPayloadBytes = .ok stored ∧
      stored.length ≤ 2 ^ 30 ∧ (compression = .none → stored = payload) ∧
        (compression ≠ .none →
          compressInto lz4 compression payload stored.length = .ok stored) ∧
          decompress lz4 compression stored (UInt64.ofNat payload.length) maxChunkPayloadBytes =
            .ok payload := by
  have hword : (UInt64.ofNat payload.length).toNat = payload.length :=
    UInt64.toNat_ofNat_of_lt (hpayload.trans_lt (by decide))
  have hlimit : UInt64.ofNat payload.length ≤ maxChunkPayloadBytes := by
    rw [UInt64.le_iff_toNat_le, hword, maxChunkPayloadBytes_toNat]
    exact hpayload
  have hsize := checkedSize_eq_ok.mpr ⟨hlimit, hword.symm⟩
  have hinput : checkedLz4Size payload.length = .ok payload.length :=
    checkedLz4Size_eq (hpayload.trans (by decide))
  rcases hcompression with rfl | rfl
  · refine ⟨payload, ?_, hpayload, fun _ => rfl, fun h => absurd rfl h, ?_⟩
    · rw [compress, forAlgorithm, if_pos rfl, pure_eq_ok, ok_bind, None.compress, hsize]
      rfl
    · rw [decompress, forAlgorithm, if_pos rfl, pure_eq_ok, ok_bind, None.decompress, hsize,
        ok_bind, throwIf_neg (not_not.mpr rfl)]
      rfl
  · obtain ⟨out, hout⟩ := hlz4.succeeds payload (hpayload.trans (by decide))
    have hlength := hstored out hout rfl
    have hcapacity : out.length ≤
        min maxChunkPayloadBytes.toNat (lz4.compressBound payload.length) :=
      le_min hlength (hlz4.length_le _ _ _ hout)
    have hbound : min maxChunkPayloadBytes.toNat (lz4.compressBound payload.length) ≤ intMax :=
      (min_le_left _ _).trans (by decide)
    have hone : CompressionAlgorithm.lz4 ≠ CompressionAlgorithm.none := by decide
    refine ⟨out, ?_, hlength, fun h => absurd h hone, fun _ => ?_, ?_⟩
    · rw [compress, forAlgorithm, if_neg hone, if_pos rfl, pure_eq_ok, ok_bind, Lz4.compress,
        hinput, ok_bind, checkedLz4Size_eq hbound, ok_bind, Lz4.compressed,
        hlz4.fits _ _ _ _ hout hcapacity]
      rfl
    · rw [compressInto, forAlgorithm, if_neg hone, if_pos rfl, pure_eq_ok, ok_bind,
        Lz4.compressInto, hinput, ok_bind, checkedLz4Size_eq (hlength.trans (by decide)), ok_bind,
        Lz4.compressed, hlz4.fits _ _ _ _ hout le_rfl]
      rfl
    · rw [decompress, forAlgorithm, if_neg hone, if_pos rfl, pure_eq_ok, ok_bind, Lz4.decompress,
        hsize, ok_bind, checkedLz4Size_eq (hlength.trans (by decide)), ok_bind, hinput, ok_bind,
        hlz4.decompress _ _ _ hout]
      simp only [ne_eq, not_true_eq_false, not_false_eq_true, throwIf_neg, ok_bind, pure_eq_ok]

end CompressionCodec

/-! ## Round trips -/

namespace BinaryNodeChunkAdapter

open ChunkCodec

/-- The payload that is written is the one that compression gave. -/
theorem writePayload_eq {lz4 : Lz4} {chunk : Chunk} {stored : Bytes}
    (hpayload : (payloadOf chunk).length ≤ 2 ^ 30)
    (hsize : chunk.metadata.storedSize.toNat = stored.length)
    (hnone : chunk.metadata.compression = .none → stored = payloadOf chunk)
    (hsome : chunk.metadata.compression ≠ .none → CompressionCodec.compressInto lz4
      chunk.metadata.compression (payloadOf chunk) stored.length = .ok stored) :
    writePayload lz4 chunk.metadata (serialized chunk.p) (serialized chunk.q)
      (serialized chunk.t) = .ok stored := by
  by_cases hcompression : chunk.metadata.compression = .none
  · have hfits : ¬ chunk.metadata.storedSize.toNat < (serialized chunk.p).magnitude.length +
        (serialized chunk.q).magnitude.length + (serialized chunk.t).magnitude.length := by
      rw [hsize, hnone hcompression, length_payloadOf]
      exact lt_irrefl _
    rw [writePayload, if_pos hcompression, if_neg hfits, hnone hcompression]
    rfl
  · rw [writePayload, if_neg hcompression, thrown_eq_ok, canonicalPayload_eq hpayload, ok_bind, hsize]
    exact hsome hcompression

/-- A node in the range of a computation becomes a chunk that is encoded, decoded and turned into the
node again, and bytes that decode to a chunk without compression are those that encoding writes. -/
theorem toChunk_encode_decode (lz4 : Lz4) (hlz4 : lz4.IsLossless) :
    (∀ (node : BinaryNode) (computation : ComputationIdentity) (treeLevel : UInt32)
        (compression : CompressionAlgorithm),
      (⟨computation, ⟨node.start, node.stop, treeLevel⟩⟩ : ChunkIdentity).IsValid →
      compression = .none ∨ compression = .lz4 →
      (CheckpointBlockCodec.payloadBytes node.p node.q node.t).length ≤ 2 ^ 30 →
      (∀ out, lz4.compressDefault (CheckpointBlockCodec.payloadBytes node.p node.q node.t)
          (lz4.compressBound (CheckpointBlockCodec.payloadBytes node.p node.q node.t).length) =
            some out → compression = .lz4 → out.length ≤ 2 ^ 30) →
      ∃ chunk bytes, toChunk lz4 node computation treeLevel compression = .ok chunk ∧
        chunk.metadata.identity = ⟨computation, ⟨node.start, node.stop, treeLevel⟩⟩ ∧
          chunk.metadata.compression = compression ∧ encode lz4 chunk = .ok bytes ∧
            decode lz4 bytes = .ok chunk ∧ toBinaryNode chunk = .ok node) ∧
      ∀ (bytes : Bytes) (chunk : Chunk), decode lz4 bytes = .ok chunk →
        chunk.metadata.compression = .none → encode lz4 chunk = .ok bytes := by
  refine ⟨?_, ?_⟩
  · intro node computation treeLevel compression hidentity hcompression hpayload hstored
    obtain ⟨stored, hcompress, hlength, hnone, hsome, hdecompress⟩ :=
      CompressionCodec.compress_eq_ok hlz4 hcompression hpayload hstored
    obtain ⟨metadata, hcreate, hvalid, hmetadata, rfl, huncompressed, hsize, hchecksum⟩ :=
      createMetadata_eq_ok hidentity hcompression hpayload hcompress hlength
    have hencodable : IsEncodable lz4 ⟨metadata, node.p, node.q, node.t⟩ stored :=
      ⟨hvalid, huncompressed, writePayload_eq hpayload hsize hnone hsome, hsize, hchecksum⟩
    have hsizes : metadata.uncompressedSize = UInt64.ofNat
        (CheckpointBlockCodec.payloadBytes node.p node.q node.t).length := by
      rw [← huncompressed, UInt64.ofNat_toNat]
    have hdecodable : IsDecodable lz4 ⟨metadata, node.p, node.q, node.t⟩ stored :=
      ⟨hvalid, areLengths_of_le hpayload, hsize, hchecksum, hsizes ▸ hdecompress⟩
    refine ⟨_, _, ?_, hmetadata, rfl, encode_eq_ok_iff.mpr ⟨stored, rfl, hencodable⟩,
      decode_eq_ok_iff.mpr ⟨stored, rfl, hdecodable⟩, ?_⟩
    · have hstart : ¬ node.start ≥ node.stop := UInt64.not_le.mpr hidentity.start_lt
      simp only [toChunk, BlockLocation.create, bind_eq_ok, throwIf_eq_ok,
        BlockLocation.validate_eq_ok, ChunkIdentity.create_eq_ok, pure_eq_ok, Except.ok.injEq]
      exact ⟨(), hstart, _, ⟨(), ⟨hidentity.start_lt, hidentity.stop_le⟩, rfl⟩, _,
        ⟨rfl, hidentity⟩, _, hcreate, rfl⟩
    · simp only [toBinaryNode, bind_eq_ok, ChunkMetadata.validate_eq_ok, pure_eq_ok,
        Except.ok.injEq]
      exact ⟨(), hvalid, by rw [hmetadata]⟩
  · intro bytes chunk hdecode hcompression
    obtain ⟨stored, hbytes, hdecodable⟩ := decode_eq_ok_iff.mp hdecode
    have hpayload := hdecodable.payload
    rw [hcompression, CompressionCodec.decompress, CompressionCodec.forAlgorithm, if_pos rfl,
      pure_eq_ok, ok_bind, CompressionCodec.None.decompress] at hpayload
    simp only [bind_eq_ok, CompressionCodec.checkedSize_eq_ok, throwIf_eq_ok, not_not, pure_eq_ok,
      Except.ok.injEq] at hpayload
    obtain ⟨_, ⟨hlimit, rfl⟩, _, hlength, rfl⟩ := hpayload
    have hle : (payloadOf chunk).length ≤ 2 ^ 30 := by
      rw [UInt64.le_iff_toNat_le, ← hlength, maxChunkPayloadBytes_toNat] at hlimit
      exact hlimit
    exact encode_eq_ok_iff.mpr ⟨_, hbytes, hdecodable.valid, hlength.symm,
      writePayload_eq hle hdecodable.size (fun _ => rfl) (fun h => absurd hcompression h),
      hdecodable.size, hdecodable.checksum⟩

/-! ## A library without repetitions -/

/-- The token of a block of literals and the rest of their number. -/
def literalHeader (n : ℕ) : Bytes :=
  if n < 15 then [UInt8.ofNat (16 * n)]
  else 240 :: (List.replicate ((n - 15) / 255) 255 ++ [UInt8.ofNat ((n - 15) % 255)])

/-- Compression to one block of literals, which is what the library does with inputs that are too
short for a repetition. -/
def literals : Lz4 where
  compressDefault input capacity :=
    if (literalHeader input.length ++ input).length ≤ capacity then
      some (literalHeader input.length ++ input)
    else none
  decompressSafe input capacity :=
    let out := input.drop (input.length - capacity)
    if literalHeader out.length ++ out = input then some out else none
  compressBound n := n + n / 255 + 16

theorem literals_isLossless : literals.IsLossless where
  succeeds input _ := by
    have hheader : (literalHeader input.length).length ≤ input.length / 255 + 16 := by
      rw [literalHeader]
      split
      · simp
      · simp only [List.length_cons, List.length_append, List.length_replicate, List.length_nil]
        omega
    refine ⟨literalHeader input.length ++ input, if_pos ?_⟩
    rw [List.length_append]
    change _ ≤ input.length + input.length / 255 + 16
    omega
  length_le input capacity out h := by
    simp only [literals, Option.ite_none_right_eq_some, Option.some.injEq] at h
    exact h.2 ▸ h.1
  fits input capacity capacity' out h hle := by
    simp only [literals, Option.ite_none_right_eq_some, Option.some.injEq] at h ⊢
    obtain ⟨_, rfl⟩ := h
    exact ⟨hle, rfl⟩
  decompress input capacity out h := by
    simp only [literals, Option.ite_none_right_eq_some, Option.some.injEq] at h
    obtain ⟨_, rfl⟩ := h
    have hdrop : (literalHeader input.length ++ input).drop
        ((literalHeader input.length ++ input).length - input.length) = input := by
      rw [List.length_append, Nat.add_sub_cancel, List.drop_left]
    simp only [literals, hdrop, if_pos]

/-- A compressed node with a negative value and a zero. -/
theorem toChunk_encode_decode_negative :
    let computation : ComputationIdentity := ⟨⟨1⟩, 1, 1, 1, 16, 17, 3⟩
    let node : BinaryNode := ⟨1, 3, 5, -300, 0⟩
    ∃ chunk bytes, toChunk literals node computation 2 .lz4 = .ok chunk ∧
      encode literals chunk = .ok bytes ∧ decode literals bytes = .ok chunk ∧
        toBinaryNode chunk = .ok node := by
  intro computation node
  obtain ⟨chunk, bytes, hchunk, _, _, hencode, hdecode, hnode⟩ :=
    (toChunk_encode_decode literals literals_isLossless).1 node computation 2 .lz4 (by decide)
      (Or.inr rfl) (by decide) (fun out hout _ =>
        (literals_isLossless.length_le _ _ _ hout).trans (by decide))
  exact ⟨chunk, bytes, hchunk, hencode, hdecode, hnode⟩

end BinaryNodeChunkAdapter

end GiveMePi.Storage
