import GiveMePi.Checkpoint.ChecksumBursts
import GiveMePi.Checkpoint.ManifestFormat
import GiveMePi.Storage.ChunkFormat

/-! # Corruption is detected

Every format stores the checksum of all its other bytes. Bytes that are changed within four
neighbours do not hold their own checksum any more, so no decoder accepts them. -/

namespace GiveMePi

open Checkpoint Checkpoint.CRC32C Storage

/-! ## Accepted bytes are sealed -/

namespace Checkpoint

theorem CheckpointBlockCodec.isSealed_blockBytes (block : CheckpointBlock) :
    IsSealed CheckpointBlockCodec.checksumOffset (CheckpointBlockCodec.blockBytes block) := by
  refine isSealed_append (CheckpointBlockCodec.length_beforeChecksum _ _) ?_
  rw [CheckpointBlockCodec.checksumOf]
  exact calculateZeroed_slot (CheckpointBlockCodec.length_beforeChecksum _ _) (length_appendU32 0)
    (length_appendU32 _)

theorem CheckpointManifestCodec.isSealed_manifestBytes (manifest : CheckpointManifest) :
    IsSealed CheckpointManifestCodec.checksumOffset
      (CheckpointManifestCodec.manifestBytes manifest) := by
  refine isSealed_append (CheckpointManifestCodec.length_beforeChecksum _ _) ?_
  rw [CheckpointManifestCodec.checksumOf]
  exact calculateZeroed_slot (CheckpointManifestCodec.length_beforeChecksum _ _)
    (length_appendU32 0) (length_appendU32 _)

end Checkpoint

namespace Storage

theorem ChunkCodec.isSealed_chunkBytes (chunk : Chunk) (stored : Bytes) :
    IsSealed ChunkCodec.checksumOffset (ChunkCodec.chunkBytes chunk stored) := by
  refine isSealed_append (ChunkCodec.length_beforeChecksum _ _ _) ?_
  rw [ChunkCodec.checksumOf]
  exact calculateZeroed_slot (ChunkCodec.length_beforeChecksum _ _ _) (length_appendU32 0)
    (length_appendU32 _)

end Storage

/-! ## Bursts are rejected -/

/-- A decoder that accepts only sealed bytes rejects every burst on sealed bytes. -/
theorem rejects_burst {α : Type} {checksumOffset : ℕ} {decode : Bytes → Except Error α}
    (hdecode : ∀ bytes a, decode bytes = .ok a → IsSealed checksumOffset bytes)
    {bytes bytes' : Bytes} (hbytes : IsSealed checksumOffset bytes)
    (hburst : IsBurst checksumOffset bytes bytes') : ∃ e, decode bytes' = .error e := by
  cases h : decode bytes' with
  | error e => exact ⟨e, rfl⟩
  | ok a => exact absurd (hdecode bytes' a h) (hbytes.not_isSealed hburst)

/-- No decoder accepts bytes that encoding wrote, or that decoding accepts, once some of them are
changed within four neighbours outside or inside of the checksum. -/
theorem decode_rejects_burst :
    (∀ (block : CheckpointBlock) (bytes bytes' : Bytes),
      CheckpointBlockCodec.encode block = .ok bytes ∨ CheckpointBlockCodec.decode bytes = .ok block →
      IsBurst CheckpointBlockCodec.checksumOffset bytes bytes' →
        ∃ e, CheckpointBlockCodec.decode bytes' = .error e) ∧
      (∀ (manifest : CheckpointManifest) (bytes bytes' : Bytes),
        CheckpointManifestCodec.encode manifest = .ok bytes ∨
          CheckpointManifestCodec.decode bytes = .ok manifest →
        IsBurst CheckpointManifestCodec.checksumOffset bytes bytes' →
          ∃ e, CheckpointManifestCodec.decode bytes' = .error e) ∧
      ∀ (lz4 : Lz4) (chunk : Chunk) (bytes bytes' : Bytes),
        ChunkCodec.encode lz4 chunk = .ok bytes ∨ ChunkCodec.decode lz4 bytes = .ok chunk →
        IsBurst ChunkCodec.checksumOffset bytes bytes' →
          ∃ e, ChunkCodec.decode lz4 bytes' = .error e := by
  refine ⟨?_, ?_, ?_⟩
  · intro block bytes bytes' h hburst
    have hdecode (bytes : Bytes) (block : CheckpointBlock)
        (h : CheckpointBlockCodec.decode bytes = .ok block) :
        IsSealed CheckpointBlockCodec.checksumOffset bytes := by
      rw [(CheckpointBlockCodec.decode_eq_ok_iff.mp h).1]
      exact CheckpointBlockCodec.isSealed_blockBytes block
    apply rejects_burst hdecode _ hburst
    cases h with
    | inl h =>
        rw [(CheckpointBlockCodec.encode_eq_ok_iff.mp h).1]
        exact CheckpointBlockCodec.isSealed_blockBytes block
    | inr h => exact hdecode bytes block h
  · intro manifest bytes bytes' h hburst
    have hdecode (bytes : Bytes) (manifest : CheckpointManifest)
        (h : CheckpointManifestCodec.decode bytes = .ok manifest) :
        IsSealed CheckpointManifestCodec.checksumOffset bytes := by
      rw [(CheckpointManifestCodec.decode_eq_ok_iff.mp h).1]
      exact CheckpointManifestCodec.isSealed_manifestBytes manifest
    apply rejects_burst hdecode _ hburst
    cases h with
    | inl h =>
        rw [(CheckpointManifestCodec.encode_eq_ok_iff.mp h).1]
        exact CheckpointManifestCodec.isSealed_manifestBytes _
    | inr h => exact hdecode bytes manifest h
  · intro lz4 chunk bytes bytes' h hburst
    have hdecode (bytes : Bytes) (chunk : Chunk) (h : ChunkCodec.decode lz4 bytes = .ok chunk) :
        IsSealed ChunkCodec.checksumOffset bytes := by
      obtain ⟨stored, hbytes, _⟩ := ChunkCodec.decode_eq_ok_iff.mp h
      rw [hbytes]
      exact ChunkCodec.isSealed_chunkBytes chunk stored
    apply rejects_burst hdecode _ hburst
    cases h with
    | inl h =>
        obtain ⟨stored, hbytes, _⟩ := ChunkCodec.encode_eq_ok_iff.mp h
        rw [hbytes]
        exact ChunkCodec.isSealed_chunkBytes chunk stored
    | inr h => exact hdecode bytes chunk h

/-- A block whose first payload byte is changed. -/
theorem decode_rejects_burst_payload :
    let block : CheckpointBlock := ⟨⟨⟨1⟩, 1, 1, 1, 16, 17, 3⟩, ⟨0, 3, 2⟩, 5, 1, -1⟩
    ∃ bytes e, CheckpointBlockCodec.encode block = .ok bytes ∧
      CheckpointBlockCodec.decode (bytes.set 112 6) = .error e := by
  intro block
  have hencodable : CheckpointBlockCodec.IsEncodable block :=
    ⟨by decide, by decide, by decide, by decide, by decide, by decide, by decide⟩
  obtain ⟨bytes, hbytes⟩ : ∃ bytes, bytes = CheckpointBlockCodec.blockBytes block := ⟨_, rfl⟩
  have hencode := CheckpointBlockCodec.encode_eq_ok_iff.mpr ⟨hbytes, hencodable⟩
  have hbyte : bytes[112]? = some 5 := by
    have hbefore : (CheckpointBlockCodec.beforeChecksum block.identity block.location ++
        appendU32 (CheckpointBlockCodec.checksumOf block)).length = 84 := by
      rw [List.length_append, CheckpointBlockCodec.length_beforeChecksum, length_appendU32]
      rfl
    rw [hbytes, CheckpointBlockCodec.blockBytes, List.getElem?_append_right (by omega), hbefore]
    decide
  have hburst : IsBurst CheckpointBlockCodec.checksumOffset bytes (bytes.set 112 6) := by
    refine ⟨List.length_set, ?_, 112, Or.inr (Or.inr (by decide)), ?_⟩
    · intro hsame
      have hset := congrArg (fun list => list[112]?) hsame
      simp [List.getElem?_set, hbyte] at hset
    · intro i hdiff
      by_contra hi
      exact hdiff (List.getElem?_set_ne (by omega))
  obtain ⟨e, he⟩ := decode_rejects_burst.1 block bytes _ (Or.inl hencode) hburst
  exact ⟨bytes, e, hencode, he⟩

end GiveMePi
