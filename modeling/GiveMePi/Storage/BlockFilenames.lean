import GiveMePi.Checkpoint.EntryAcceptance
import GiveMePi.Storage.StoragePlaces

/-! # The file names of blocks

A block has one name as a checkpoint and one as a chunk. Every field by which valid blocks differ is
part of both, and neither name is that of a temporary file or leads into another directory. -/

namespace GiveMePi.Storage

open Checkpoint (ComputationIdentity BlockLocation CheckpointFileInspector.isTemporary
  CheckpointStore.blockFilename CheckpointStore.blockPath CheckpointStore.blockPath_eq_ok
  CheckpointStore.identityFilename)
open GiveMePi.Path (dots dots_append dots_decimal)

/-! ## The bytes of a name -/

theorem not_mem_identityFilename {byte : UInt8} (tag : String) (hdigit : ¬ IsDigit byte)
    (htag : byte ∉ ascii tag) (hletters : byte ∉ ascii "-afvdgwn") (formatVersion : UInt16)
    (identity : ComputationIdentity) :
    byte ∉ CheckpointStore.identityFilename tag formatVersion identity := by
  have hnumber := not_mem_decimal hdigit
  simp [ascii] at hletters
  simpa [CheckpointStore.identityFilename, ascii, hnumber, hletters] using htag

theorem not_mem_blockFilename {byte : UInt8} (hdigit : ¬ IsDigit byte)
    (hletters : byte ∉ ascii "-afvdgwnpqtrl.checkpoint") (identity : ComputationIdentity)
    (location : BlockLocation) : byte ∉ CheckpointStore.blockFilename identity location := by
  have hnumber := not_mem_decimal hdigit
  simp [ascii] at hletters
  have hidentity := not_mem_identityFilename "pqt-v" hdigit (by simp [ascii, hletters])
    (by simp [ascii, hletters]) Checkpoint.CheckpointBlockCodec.formatVersion identity
  simp [CheckpointStore.blockFilename, ascii, hidentity, hnumber, hletters]

theorem not_mem_chunkFilename {byte : UInt8} (hdigit : ¬ IsDigit byte)
    (hletters : byte ∉ ascii "-afvdgwncrl.chunk") (identity : ChunkIdentity) :
    byte ∉ identity.chunkFilename := by
  have hnumber := not_mem_decimal hdigit
  simp [ascii] at hletters
  have hidentity := not_mem_identityFilename "chunk-v" hdigit (by simp [ascii, hletters])
    (by simp [ascii, hletters]) chunkFormatVersion identity.computation
  simp [ChunkIdentity.chunkFilename, ascii, hidentity, hnumber, hletters]

theorem dots_chunkFilename (identity : ChunkIdentity) : dots identity.chunkFilename = 1 := by
  simp only [ChunkIdentity.chunkFilename, dots_append, dots_decimal,
    Checkpoint.CheckpointStore.dots_identityFilename (show dots (ascii "chunk-v") = 0 by decide)]
  decide

/-! ## Names and blocks -/

/-- The name of a file of its own: not a temporary one, and without separators. -/
structure IsFinalName (name : Bytes) : Prop where
  final : ∀ directory, CheckpointFileInspector.isTemporary ⟨directory, name⟩ = false
  plain : 47 ∉ name ∧ 92 ∉ name

/-- Valid blocks have final names as checkpoints and as chunks, and no two of them share one. -/
theorem blockNames_identify (left right : ChunkIdentity) (hleft : left.IsValid)
    (hright : right.IsValid) (directoryLeft directoryRight : Bytes) :
    ∃ pathLeft pathRight nameLeft nameRight,
      CheckpointStore.blockPath directoryLeft left.computation left.location = .ok pathLeft ∧
        CheckpointStore.blockPath directoryRight right.computation right.location =
          .ok pathRight ∧
        left.deterministicFilename = .ok nameLeft ∧ right.deterministicFilename = .ok nameRight ∧
        (pathLeft.filename = pathRight.filename → left = right) ∧
        (nameLeft = nameRight → left = right) ∧
        IsFinalName pathLeft.filename ∧ IsFinalName nameLeft := by
  have hpath {identity : ChunkIdentity} (h : identity.IsValid) (directory : Bytes) :
      CheckpointStore.blockPath directory identity.computation identity.location =
        .ok ⟨directory, CheckpointStore.blockFilename identity.computation identity.location⟩ :=
    CheckpointStore.blockPath_eq_ok.mpr ⟨h.computation, h.start_lt, h.stop_le, rfl⟩
  have hname {identity : ChunkIdentity} (h : identity.IsValid) :
      identity.deterministicFilename = .ok identity.chunkFilename := by
    rw [ChunkIdentity.deterministicFilename, ChunkIdentity.validate_eq_ok (u := ()) |>.mpr h,
      ok_bind]
    rfl
  refine ⟨_, _, _, _, hpath hleft _, hpath hright _, hname hleft, hname hright, ?_, ?_, ?_, ?_⟩
  · intro h
    rcases Checkpoint.CheckpointStore.blockFilename_inj h with ⟨hcomputation, hlocation⟩
    cases left
    cases right
    simp_all
  · exact fun h => ChunkIdentity.chunkFilename_injective h
  · refine ⟨fun directory => Checkpoint.CheckpointFileInspector.isTemporary_eq_false
      (Checkpoint.CheckpointStore.dots_blockFilename _ _), ?_, ?_⟩
    · exact not_mem_blockFilename (by decide) (by decide) _ _
    · exact not_mem_blockFilename (by decide) (by decide) _ _
  · refine ⟨fun directory => Checkpoint.CheckpointFileInspector.isTemporary_eq_false
      (dots_chunkFilename left), ?_, ?_⟩
    · exact not_mem_chunkFilename (by decide) (by decide) _
    · exact not_mem_chunkFilename (by decide) (by decide) _

/-- Two blocks of one computation that differ in the tree level only. -/
theorem blockNames_identify_levels :
    let left : ChunkIdentity := ⟨⟨⟨1⟩, 1, 1, 1, 16, 17, 3⟩, ⟨0, 1, 0⟩⟩
    let right : ChunkIdentity := ⟨⟨⟨1⟩, 1, 1, 1, 16, 17, 3⟩, ⟨0, 1, 1⟩⟩
    ∃ nameLeft nameRight, left.deterministicFilename = .ok nameLeft ∧
      right.deterministicFilename = .ok nameRight ∧ nameLeft ≠ nameRight ∧
        IsFinalName nameLeft := by
  intro left right
  rcases blockNames_identify left right (by decide) (by decide) [] [] with
    ⟨_, _, nameLeft, nameRight, -, -, hleft, hright, -, hidentify, -, hfinal⟩
  exact ⟨nameLeft, nameRight, hleft, hright, fun h => absurd (hidentify h) (by decide), hfinal⟩

end GiveMePi.Storage
