import GiveMePi.Storage.StoragePlaces

/-! # What the files of a store hold

The bytes that a store prepares decode to its chunk, the entry of a chunk tells its size and its
checksum, and the bytes of an index that is saved load as this index. -/

namespace GiveMePi.Storage

open ChunkCodec
open Library (OrderedMap)

variable (policy : StoragePolicy) (lz4 : Lz4)

/-! ## Chunks -/

/-- What encoding writes, decoding reads. -/
theorem ChunkCodec.IsEncodable.isDecodable {lz4 : Lz4} {chunk : Chunk} {stored : Bytes}
    (hlz4 : lz4.IsLossless) (h : IsEncodable lz4 chunk stored) : IsDecodable lz4 chunk stored := by
  have hle := h.length_le
  have hsize : chunk.metadata.uncompressedSize =
      UInt64.ofNat (payloadOf chunk).length := by
    rw [← h.uncompressed, UInt64.ofNat_toNat]
  have hchecked : CompressionCodec.checkedSize chunk.metadata.uncompressedSize
      maxChunkPayloadBytes = .ok (payloadOf chunk).length :=
    CompressionCodec.checkedSize_eq_ok.mpr ⟨h.valid.uncompressed_le, h.uncompressed.symm⟩
  have hwritten := h.written
  refine ⟨h.valid, areLengths_of_le hle, h.size, h.checksum, ?_⟩
  rw [CompressionCodec.decompress, CompressionCodec.forAlgorithm]
  by_cases hnone : chunk.metadata.compression = .none
  · rw [writePayload, if_pos hnone] at hwritten
    split at hwritten
    · cases hwritten
    · obtain rfl : payloadOf chunk = stored := Except.ok.inj hwritten
      rw [if_pos hnone, pure_eq_ok, ok_bind, CompressionCodec.None.decompress, hchecked, ok_bind,
        throwIf_neg (not_not.mpr rfl)]
      rfl
  · have hone : chunk.metadata.compression = .lz4 := h.valid.compression.resolve_left hnone
    rw [writePayload, if_neg hnone, thrown_eq_ok, canonicalPayload_eq hle, ok_bind,
      CompressionCodec.compressInto, CompressionCodec.forAlgorithm, if_neg hnone, if_pos hone,
      pure_eq_ok, ok_bind, CompressionCodec.Lz4.compressInto] at hwritten
    simp only [bind_eq_ok, CompressionCodec.Lz4.compressed] at hwritten
    obtain ⟨_, _, capacity, _, hcompressed⟩ := hwritten
    split at hcompressed
    · cases hcompressed
    · next out hout =>
      cases hcompressed
      have hstored : stored.length ≤ 2 ^ 30 := by
        have := h.valid.stored_le
        rw [UInt64.le_iff_toNat_le, h.size, maxChunkPayloadBytes_toNat] at this
        exact this
      rw [if_neg hnone, if_pos hone, pure_eq_ok, ok_bind, CompressionCodec.Lz4.decompress, hchecked,
        ok_bind, CompressionCodec.checkedLz4Size_eq (hstored.trans (by decide)), ok_bind,
        CompressionCodec.checkedLz4Size_eq (hle.trans (by decide)), ok_bind,
        hlz4.decompress _ _ _ hout]
      simp only [ne_eq, not_true_eq_false, not_false_eq_true, throwIf_neg, ok_bind, pure_eq_ok]

/-- The bytes that `ChunkStore::store` writes decode to the chunk. -/
theorem ChunkStore.decode_of_prepare {policy : StoragePolicy} {lz4 : Lz4} {chunk : Chunk}
    {bytes : Bytes} (hlz4 : lz4.IsLossless)
    (h : ChunkStore.prepare policy lz4 chunk = .ok bytes) :
    ChunkCodec.decode lz4 bytes = .ok chunk ∧
      chunk.metadata.compression = policy.compression := by
  simp only [ChunkStore.prepare, bind_eq_ok, thrown_eq_ok, throwIf_eq_ok, not_not] at h
  obtain ⟨_, _, _, hcompression, hencode⟩ := h
  obtain ⟨stored, hbytes, hencodable⟩ := encode_eq_ok_iff.mp hencode
  exact ⟨decode_eq_ok_iff.mpr ⟨stored, hbytes, hencodable.isDecodable hlz4⟩, hcompression⟩

/-- Metadata of three values that are stored as they are. -/
def describing (identity : ChunkIdentity) (p q t : ℤ) (checksumValue : UInt32) : ChunkMetadata :=
  let length := UInt64.ofNat (Checkpoint.CheckpointBlockCodec.payloadBytes p q t).length
  ⟨identity, length, length, .crc32c, checksumValue, .none, chunkFormatVersion⟩

/-- The chunk of three values that are stored as they are. -/
def chunkOf (identity : ChunkIdentity) (p q t : ℤ) : Chunk :=
  let described : Chunk := ⟨describing identity p q t 0, p, q, t⟩
  ⟨describing identity p q t (checksumOf described (payloadOf described)), p, q, t⟩

/-- Such a chunk can be written. -/
theorem ChunkStore.prepare_chunkOf (directory : Bytes) (lz4 : Lz4) {identity : ChunkIdentity}
    {p q t : ℤ} (hidentity : identity.IsValid)
    (hpayload : (Checkpoint.CheckpointBlockCodec.payloadBytes p q t).length ≤ 2 ^ 30) :
    ∃ bytes, ChunkStore.prepare ⟨directory, .none⟩ lz4 (chunkOf identity p q t) = .ok bytes := by
  have hlength : (UInt64.ofNat
      (Checkpoint.CheckpointBlockCodec.payloadBytes p q t).length).toNat =
        (Checkpoint.CheckpointBlockCodec.payloadBytes p q t).length :=
    UInt64.toNat_ofNat_of_lt (hpayload.trans_lt (by decide))
  have hle : UInt64.ofNat (Checkpoint.CheckpointBlockCodec.payloadBytes p q t).length ≤
      maxChunkPayloadBytes := by
    rw [UInt64.le_iff_toNat_le, hlength, maxChunkPayloadBytes_toNat]
    exact hpayload
  have hvalid : (chunkOf identity p q t).metadata.IsValid :=
    ⟨hidentity, rfl, hle, hle, rfl, Or.inl rfl⟩
  have hwritten : writePayload lz4 (chunkOf identity p q t).metadata (serialized p) (serialized q)
      (serialized t) = .ok (payloadOf (chunkOf identity p q t)) :=
    BinaryNodeChunkAdapter.writePayload_eq hpayload hlength (fun _ => rfl) (fun h => absurd rfl h)
  refine ⟨chunkBytes (chunkOf identity p q t) (payloadOf (chunkOf identity p q t)), ?_⟩
  simp only [ChunkStore.prepare, bind_eq_ok, thrown_eq_ok, throwIf_eq_ok, not_not,
    ChunkMetadata.validate_eq_ok]
  exact ⟨(), hvalid, (), rfl, encode_eq_ok_iff.mpr ⟨_, rfl, hvalid, hlength, hwritten, hlength, rfl⟩⟩

/-- The bytes are those of the chunk, which is one of this store. -/
def IsStoredAs (chunk : Chunk) (bytes : Bytes) : Prop :=
  ChunkCodec.decode lz4 bytes = .ok chunk ∧ chunk.metadata.compression = policy.compression

/-- The file of a chunk is there and holds it. -/
def HasChunk (files : FileSystem) (chunk : Chunk) : Prop :=
  ∃ bytes, files.lookup (ChunkStore.chunkPath policy chunk.metadata.identity.chunkFilename) =
    some bytes ∧ IsStoredAs policy lz4 chunk bytes

variable {policy lz4}

theorem HasChunk.congr {files files' : FileSystem} {chunk : Chunk}
    (h : HasChunk policy lz4 files chunk)
    (hsame : files'.lookup (ChunkStore.chunkPath policy chunk.metadata.identity.chunkFilename) =
      files.lookup (ChunkStore.chunkPath policy chunk.metadata.identity.chunkFilename)) :
    HasChunk policy lz4 files' chunk := by
  obtain ⟨bytes, hlookup, hbytes⟩ := h
  exact ⟨bytes, hsame.trans hlookup, hbytes⟩

theorem IsStoredAs.isValid {chunk : Chunk} {bytes : Bytes} (h : IsStoredAs policy lz4 chunk bytes) :
    chunk.metadata.IsValid := by
  obtain ⟨_, _, hdecodable⟩ := decode_eq_ok_iff.mp h.1
  exact hdecodable.valid

/-- `ChunkStore::reloadAndVerify` gives back the chunk of a file. -/
theorem IsStoredAs.reload {chunk : Chunk} {bytes : Bytes} (h : IsStoredAs policy lz4 chunk bytes) :
    ChunkStore.reload policy lz4 chunk.metadata.identity.chunkFilename bytes = .ok chunk := by
  have hverify : ChunkStore.verify policy lz4 chunk.metadata.identity.chunkFilename bytes =
      .ok chunk := by
    simp only [ChunkStore.verify, ChunkIdentity.deterministicFilename, bind_eq_ok, throwIf_eq_ok,
      ChunkIdentity.validate_eq_ok, not_not, pure_eq_ok, Except.ok.injEq]
    exact ⟨chunk, h.1, _, ⟨(), h.isValid.identity, rfl⟩, (), rfl, (), h.2, rfl⟩
  rw [ChunkStore.reload, hverify]

/-! ## Entries -/

namespace ChunkIndex

/-- The entry of a chunk in the index. -/
def entryOf (metadata : ChunkMetadata) : ChunkIndexEntry where
  identity := metadata.identity
  storageFile := metadata.identity.chunkFilename
  uncompressedSize := metadata.uncompressedSize
  storedSize := metadata.storedSize
  checksumAlgorithm := metadata.checksumAlgorithm
  checksumValue := metadata.checksumValue
  formatVersion := metadata.formatVersion

theorem addMetadata_eq_ok {index next : ChunkIndex} {metadata : ChunkMetadata} :
    index.addMetadata metadata = .ok next ↔ index.add (entryOf metadata) = .ok next := by
  simp only [addMetadata, ChunkIdentity.deterministicFilename, bind_eq_ok,
    ChunkIdentity.validate_eq_ok, pure_eq_ok, Except.ok.injEq]
  constructor
  · intro h
    obtain ⟨_, ⟨_, _, rfl⟩, hadd⟩ := h
    exact hadd
  · intro h
    exact ⟨_, ⟨(), (add_eq_ok.mp h).1.identity, rfl⟩, h⟩

theorem find?_add {index next : ChunkIndex} {entry : ChunkIndexEntry}
    (h : index.add entry = .ok next) (identity : ChunkIdentity) :
    next.find? identity =
      if identity = entry.identity then some entry else index.find? identity := by
  obtain ⟨_, hfresh, _, rfl⟩ := add_eq_ok.mp h
  split
  · next hidentity => rw [hidentity, OrderedMap.find?_emplace_self hfresh]
  · next hidentity => rw [OrderedMap.find?_emplace_of_ne hfresh hidentity]

theorem find?_remove (index : ChunkIndex) (removed identity : ChunkIdentity) :
    (index.remove removed).find? identity =
      if identity = removed then none else index.find? identity := by
  split
  · next hidentity => rw [hidentity, remove, OrderedMap.find?_erase_self]
  · next hidentity => rw [remove, OrderedMap.find?_erase_of_ne hidentity]

theorem IsWithinLimits.remove {index : ChunkIndex} (h : IsWithinLimits index)
    (identity : ChunkIdentity) : IsWithinLimits (index.remove identity) where
  count_le := (List.length_filter_le _ _).trans h.count_le
  filename_le entry hentry := h.filename_le entry (OrderedMap.mem_erase.mp hentry).1

/-- The index file is the one of the given index. -/
theorem load_of_lookup {policy : StoragePolicy} {files : FileSystem} {index : ChunkIndex}
    (h : IsWellFormed index) (hlimits : IsWithinLimits index)
    (hlookup : files.lookup (indexPath policy) = some (indexBytes index)) :
    load policy files = .ok index := by
  rw [load, hlookup]
  exact deserialize_indexBytes h hlimits

/-- The length of a name is read as 32 bits. -/
theorem filename_le_of_decodeEntry {bytes : Bytes} {position position' : ℕ}
    {entry : ChunkIndexEntry} (h : decodeEntry bytes position = .ok (entry, position')) :
    entry.storageFile.length ≤ 2 ^ 32 - 1 := by
  simp only [decodeEntry, Cursor.bind_eq_ok, Cursor.pure_eq_ok] at h
  obtain ⟨_, _, _, filename, _, hfilename, _, _, _, _, _, _, _, _, _, _, _, _, _, _, _, rfl, _⟩ := h
  simp only [decodeFilename, Cursor.bind_eq_ok] at hfilename
  obtain ⟨length, _, _, _, _, _, _, _, _, hcopy⟩ := hfilename
  rw [Cursor.length_copy hcopy]
  have := length.toNat_lt
  omega

theorem limits_of_decodeEntries {bytes : Bytes} {count : ℕ} {result index : ChunkIndex}
    {position position' : ℕ}
    (hresult : ∀ entry ∈ result.entries, entry.2.storageFile.length ≤ 2 ^ 32 - 1)
    (h : decodeEntries bytes count result position = .ok (index, position')) :
    index.entries.length ≤ result.entries.length + count ∧
      ∀ entry ∈ index.entries, entry.2.storageFile.length ≤ 2 ^ 32 - 1 := by
  induction count generalizing result position with
  | zero =>
      rw [decodeEntries, Cursor.pure_eq_ok] at h
      exact h.1 ▸ ⟨le_rfl, hresult⟩
  | succ count ih =>
      simp only [decodeEntries, Cursor.bind_eq_ok, Cursor.liftM_eq_ok] at h
      obtain ⟨entry, _, hentry, next, _, ⟨hadd, _⟩, hrest⟩ := h
      have hfilenames := forall_mem_of_add
        (P := fun entry => entry.storageFile.length ≤ 2 ^ 32 - 1) hadd
        (filename_le_of_decodeEntry hentry) hresult
      obtain ⟨-, -, -, rfl⟩ := add_eq_ok.mp hadd
      have hstep := OrderedMap.length_emplaceEntry_le (k := entry.identity) (a := entry)
        result.entries
      obtain ⟨hcount, hfilename⟩ := ih hfilenames hrest
      refine ⟨?_, hfilename⟩
      simp only [OrderedMap.emplace] at hcount
      omega

theorem deserialize_isWithinLimits {bytes : Bytes} {index : ChunkIndex}
    (h : deserialize bytes = .ok index) : IsWithinLimits index := by
  simp only [deserialize, readIndex, decodeIndex, GiveMePi.bind_eq_ok, Prod.exists,
    Cursor.bind_eq_ok, Cursor.pure_eq_ok, GiveMePi.pure_eq_ok, Except.ok.injEq] at h
  obtain ⟨_, _, ⟨_, _, _, _, _, _, _, _, _, _, _, _, found, _, ⟨_, _, _, _, _, _, count, _, _, hfound⟩, _,
    _, _, _, _, _, rfl, _⟩, rfl⟩ := h
  have hempty : ∀ entry ∈ (create : ChunkIndex).entries,
      entry.2.storageFile.length ≤ 2 ^ 32 - 1 := fun _ hmem => absurd hmem List.not_mem_nil
  obtain ⟨hcount, hfilename⟩ := limits_of_decodeEntries hempty hfound
  refine ⟨hcount.trans ?_, hfilename⟩
  have := count.toNat_lt
  change 0 + _ ≤ _
  omega

theorem load_congr {policy : StoragePolicy} {files files' : FileSystem}
    (h : files'.lookup (indexPath policy) = files.lookup (indexPath policy)) :
    load policy files' = load policy files := by
  rw [load, load, h]

/-- What is loaded can be saved again. -/
theorem of_load {policy : StoragePolicy} {files : FileSystem} {index : ChunkIndex}
    (h : load policy files = .ok index) : IsWellFormed index ∧ IsWithinLimits index := by
  rw [load] at h
  split at h
  · cases h
    exact ⟨isWellFormed_create, Nat.zero_le _, fun _ hmem => absurd hmem List.not_mem_nil⟩
  · exact ⟨deserialize_isWellFormed h, deserialize_isWithinLimits h⟩

end ChunkIndex

end GiveMePi.Storage
