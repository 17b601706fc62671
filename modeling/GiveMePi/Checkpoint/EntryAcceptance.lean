import GiveMePi.Checkpoint.BlockAcceptance
import GiveMePi.Checkpoint.CheckpointFilenames
import GiveMePi.Checkpoint.CheckpointResumePlanner
import GiveMePi.Checkpoint.ManifestAcceptance

/-! # The entries that are taken over

An entry is taken over exactly when it is the record of a block with right residues and its file
holds the bytes of that block. -/

namespace GiveMePi.Checkpoint

open CheckpointBlockCodec (blockBytes checksumOf payloadLength)

/-- The record of a block in a manifest. -/
def CheckpointBlock.entry (block : CheckpointBlock) : ManifestEntry where
  location := block.location
  filename := CheckpointStore.blockFilename block.identity block.location
  payloadSize := UInt64.ofNat (payloadLength block.p block.q block.t)
  checksumAlgorithm := ChecksumAlgorithm.crc32c
  checksum := checksumOf block
  completion := CompletionState.complete

/-- The path of the file of a block. -/
def CheckpointBlock.path (block : CheckpointBlock) (directory : Bytes) : Path :=
  ⟨directory, CheckpointStore.blockFilename block.identity block.location⟩

theorem CheckpointBlock.isFinal_path (block : CheckpointBlock) (directory : Bytes) :
    Path.dots (block.path directory).filename = 1 :=
  CheckpointStore.dots_blockFilename _ _

/-- The file of a block holds it. -/
structure IsStored (files : FileSystem) (directory : Bytes) (block : CheckpointBlock) : Prop where
  lookup : files.lookup (block.path directory) = some (blockBytes block)
  length_le : (blockBytes block).length ≤ AtomicFileCommit.fileSizeMax

namespace CheckpointStore

theorem blockPath_eq_ok {directory : Bytes} {identity : ComputationIdentity}
    {location : BlockLocation} {path : Path} :
    blockPath directory identity location = .ok path ↔ identity.IsValid ∧
      location.start < location.stop ∧ location.stop ≤ identity.termCount ∧
        path = ⟨directory, blockFilename identity location⟩ := by
  simp only [blockPath, bind_eq_ok, BlockLocation.validate_eq_ok, pure_eq_ok, Except.ok.injEq,
    ComputationIdentity.IsValid]
  constructor
  · intro h
    obtain ⟨_, hidentity, _, hlocation, hpath⟩ := h
    exact ⟨hidentity, hlocation.1, hlocation.2, hpath.symm⟩
  · intro h
    obtain ⟨hidentity, hstart, hstop, hpath⟩ := h
    exact ⟨(), hidentity, (), ⟨hstart, hstop⟩, hpath.symm⟩

end CheckpointStore

namespace CheckpointFileInspector

/-- What the inspection reports of the file of a block. -/
def fileOf (path : Path) (block : CheckpointBlock) : InspectedCheckpointFile where
  path := path
  fileSize := UInt64.ofNat (blockBytes block).length
  payloadSize := UInt64.ofNat (payloadLength block.p block.q block.t)
  checksumAlgorithm := ChecksumAlgorithm.crc32c
  checksum := checksumOf block
  block := block

/-- The inspection accepts the files of blocks of the computation with an admissible tree level. -/
theorem inspect_eq_iff {files : FileSystem} {path : Path} {identity : ComputationIdentity}
    {file : InspectedCheckpointFile} :
    ((inspect files path identity).file = some file ∧
        (inspect files path identity).validation.isAccepted = true) ↔
      isTemporary path = false ∧ path.extension = ascii ".checkpoint" ∧
        ∃ block, files.lookup path = some (blockBytes block) ∧
          (blockBytes block).length ≤ AtomicFileCommit.fileSizeMax ∧
            CheckpointBlockCodec.IsDecodable block ∧ block.identity = identity ∧
              block.location.treeLevel ≤ Binary.maximumTreeLevel identity.termCount ∧
                file = fileOf path block := by
  rw [inspect]
  cases htemporary : isTemporary path with
  | true => simp
  | false =>
      rw [if_neg Bool.false_ne_true]
      by_cases hextension : path.extension = ascii ".checkpoint"
      swap
      · simp [hextension, rejected]
      rw [if_neg (not_not.mpr hextension)]
      cases hlookup : files.lookup path with
      | none => simp [rejected]
      | some bytes =>
          by_cases hlength : bytes.length > AtomicFileCommit.fileSizeMax
          · simp only [if_pos hlength, rejected, reduceCtorEq, false_and, false_iff, not_and,
              not_exists]
            intro _ _ block hbytes hle
            cases hbytes
            exact absurd hle hlength.not_ge
          cases hexamine : CheckpointBlockValidator.examine bytes identity with
          | error e =>
              have hvalidate : CheckpointBlockValidator.validate bytes identity =
                  ⟨.rejectedFor e.stage e.reason e.detail, none⟩ := by
                rw [CheckpointBlockValidator.validate, hexamine]
              simp only [if_neg hlength, hvalidate, reduceCtorEq, false_and, false_iff, not_and,
                not_exists]
              intro _ _ block hbytes _ hdecodable hidentity hlevel
              cases hbytes
              rw [← CheckpointBlockValidator.maximumTreeLevel_eq] at hlevel
              have hok := CheckpointBlockValidator.examine_eq_ok_iff.mpr ⟨block,
                CheckpointBlockCodec.decode_eq_ok_iff.mpr ⟨rfl, hdecodable⟩, hidentity, hlevel, rfl⟩
              rw [hexamine] at hok
              cases hok
          | ok validated =>
              obtain ⟨block, hdecode, hidentity, hlevel, rfl⟩ :=
                CheckpointBlockValidator.examine_eq_ok_iff.mp hexamine
              rw [CheckpointBlockValidator.maximumTreeLevel_eq] at hlevel
              obtain ⟨rfl, hdecodable⟩ := CheckpointBlockCodec.decode_eq_ok_iff.mp hdecode
              have hvalidate : CheckpointBlockValidator.validate (blockBytes block) identity =
                  ⟨.accepted, some (CheckpointBlockValidator.validatedBlock block)⟩ := by
                rw [CheckpointBlockValidator.validate, hexamine]
              simp only [if_neg hlength, hvalidate, ValidationResult.isAccepted_accepted,
                Bool.true_eq_false, if_false, Option.some.injEq, and_true, true_and]
              constructor
              · intro h
                exact ⟨hextension, block, rfl, not_lt.mp hlength, hdecodable, hidentity, hlevel,
                  h.symm⟩
              · intro h
                obtain ⟨-, other, hbytes, -, hother, -, -, hfile⟩ := h
                have hsame : other = block := by
                  have := CheckpointBlockCodec.decode_eq_ok_iff.mpr ⟨rfl, hother⟩
                  rw [← hbytes, hdecode] at this
                  exact (Except.ok.inj this).symm
                rw [hfile, hsame]
                rfl

end CheckpointFileInspector

namespace ManifestEntryValidator

theorem addIf_eq_nil {condition : Prop} [Decidable condition] {reason : RejectionReason}
    {detail : String} : addIf condition reason detail = [] ↔ ¬ condition := by
  rw [addIf]
  split <;> simp [*]

theorem rangeDiagnostics_eq_nil {entry : ManifestEntry} {identity : ComputationIdentity} :
    rangeDiagnostics entry identity = [] ↔ identity.IsValid ∧
      entry.location.start < entry.location.stop ∧ entry.location.stop ≤ identity.termCount := by
  rw [← BlockLocation.validate_eq_ok (u := ()), rangeDiagnostics, ComputationIdentity.IsValid]
  cases identity.validate with
  | error e => simp
  | ok u => cases entry.location.validate identity <;> simp

theorem filenameDiagnostics_eq_nil {entry : ManifestEntry} {file : InspectedCheckpointFile}
    {identity : ComputationIdentity} :
    filenameDiagnostics entry file identity = [] ↔
      CheckpointStore.blockPath file.path.directory identity entry.location =
        .ok ⟨file.path.directory, entry.filename⟩ := by
  rw [filenameDiagnostics]
  cases h : CheckpointStore.blockPath file.path.directory identity entry.location with
  | error e => simp
  | ok path =>
      obtain ⟨-, -, -, rfl⟩ := CheckpointStore.blockPath_eq_ok.mp h
      rw [addIf_eq_nil, not_not, Except.ok.injEq, Path.mk.injEq]
      exact ⟨fun heq => ⟨rfl, heq.symm⟩, fun heq => heq.2.symm⟩

/-- An entry matches the file of a block exactly when it is the record of the block. -/
theorem validate_isAccepted_iff {entry : ManifestEntry} {path : Path} {block : CheckpointBlock}
    {identity : ComputationIdentity}
    (hpath : path.filename = entry.filename) (hidentity : identity.IsValid)
    (hstart : block.location.start < block.location.stop)
    (hstop : block.location.stop ≤ identity.termCount) :
    (validate entry (CheckpointFileInspector.fileOf path block) identity).isAccepted = true ↔
      block.identity = identity ∧ entry = block.entry := by
  rw [validate, CheckpointFileInspector.fileOf, ValidationResult.isAccepted_ofDiagnostics]
  simp only [List.append_eq_nil_iff, addIf_eq_nil, rangeDiagnostics_eq_nil,
    filenameDiagnostics_eq_nil, CheckpointStore.blockPath_eq_ok, not_not, not_or]
  constructor
  · intro h
    obtain ⟨⟨⟨⟨⟨⟨⟨-, hsame⟩, hlocation⟩, -⟩, -, -, -, hfilename⟩, hpayload⟩, hchecksum⟩,
      hcomplete⟩ := h
    refine ⟨hsame, ?_⟩
    obtain ⟨location, filename, payloadSize, algorithm, checksum, completion⟩ := entry
    simp only [Path.mk.injEq, true_and] at hlocation hfilename hpayload hchecksum hcomplete
    rw [CheckpointBlock.entry, hsame, hlocation, hfilename, hpayload, hchecksum.1, hchecksum.2,
      hcomplete]
  · intro h
    obtain ⟨rfl, rfl⟩ := h
    exact ⟨⟨⟨⟨⟨⟨⟨⟨hidentity, hstart, hstop⟩, rfl⟩, rfl⟩, hpath.symm⟩, hidentity, hstart, hstop,
      rfl⟩, rfl⟩, rfl, rfl⟩, rfl⟩

end ManifestEntryValidator

namespace CheckpointResumePlanner

/-- What the plan holds of a block. -/
def acceptedOf (directory : Bytes) (block : CheckpointBlock) : AcceptedCheckpoint where
  path := block.path directory
  fileSize := UInt64.ofNat (blockBytes block).length
  block := block
  manifestEntry := block.entry

/-- What the checks of the planner establish of a block. -/
structure IsResumable (identity : ComputationIdentity) (block : CheckpointBlock) : Prop where
  identity_eq : block.identity = identity
  decodable : CheckpointBlockCodec.IsDecodable block
  level_le : block.location.treeLevel ≤ Binary.maximumTreeLevel identity.termCount
  congruent : ∀ prime ∈ ModularPQTVerifier.verificationPrimes,
    ModularPQTVerifier.IsCongruent block prime.toNat

theorem examineEntry_eq_ok_iff {files : FileSystem} {directory : Bytes}
    {identity : ComputationIdentity} {entry : ManifestEntry} {accepted : AcceptedCheckpoint} :
    examineEntry files ⟨directory, entry.filename⟩ identity entry = .ok accepted ↔
      ∃ block, IsResumable identity block ∧ IsStored files directory block ∧
        entry = block.entry ∧ accepted = acceptedOf directory block := by
  constructor
  · intro h
    simp only [examineEntry] at h
    cases hfile : (CheckpointFileInspector.inspect files ⟨directory, entry.filename⟩
        identity).file with
    | none => simp [hfile] at h
    | some file =>
        simp only [hfile] at h
        split at h
        · cases h
        next hinspected =>
        obtain ⟨-, -, block, hlookup, hlength, hdecodable, hidentity, hlevel, rfl⟩ :=
          CheckpointFileInspector.inspect_eq_iff.mp ⟨hfile, Bool.eq_true_of_not_eq_false hinspected⟩
        split at h
        · cases h
        next hmatches =>
        have hname : (⟨directory, entry.filename⟩ : Path).filename = entry.filename := rfl
        obtain ⟨-, rfl⟩ := (ManifestEntryValidator.validate_isAccepted_iff hname (hidentity ▸ hdecodable.identity)
          hdecodable.start_lt (hidentity ▸ hdecodable.stop_le)).mp
            (Bool.eq_true_of_not_eq_false hmatches)
        split at h
        · cases h
        next hmodular =>
        obtain ⟨-, -, -, hcongruent⟩ := ModularPQTVerifier.validate_isAccepted_iff.mp
          (Bool.eq_true_of_not_eq_false hmodular)
        exact ⟨block, ⟨hidentity, hdecodable, hlevel, hcongruent⟩, ⟨hlookup, hlength⟩, rfl,
          (Except.ok.inj h).symm⟩
  · intro h
    obtain ⟨block, hresumable, hstored, rfl, rfl⟩ := h
    obtain ⟨rfl, hdecodable, hlevel, hcongruent⟩ := hresumable
    obtain ⟨hfile, hinspected⟩ := CheckpointFileInspector.inspect_eq_iff.mpr
      ⟨CheckpointFileInspector.isTemporary_eq_false (block.isFinal_path directory),
        CheckpointStore.extension_blockFilename _ _ _, block, hstored.lookup, hstored.length_le,
        hdecodable, rfl, hlevel, rfl⟩
    have hname : (block.path directory).filename = block.entry.filename := rfl
    have hmatches := (ManifestEntryValidator.validate_isAccepted_iff hname hdecodable.identity hdecodable.start_lt
      hdecodable.stop_le).mpr ⟨rfl, rfl⟩
    have hmodular := ModularPQTVerifier.validate_isAccepted_iff.mpr
      ⟨hdecodable.identity, hdecodable.start_lt, hdecodable.stop_le, hcongruent⟩
    change examineEntry files (block.path directory) block.identity block.entry = _
    simp only [examineEntry, hfile, hinspected, hmatches, Bool.true_eq_false, if_false]
    simp only [CheckpointFileInspector.fileOf, hmodular, Bool.true_eq_false, if_false, acceptedOf]

end CheckpointResumePlanner

/-! ## Admissible tree levels -/

/-- The splitter and the two validators admit the same levels, up to the least one at which a tree
has room for all terms. -/
theorem maximumTreeLevels_agree (termCount : UInt64) :
    IsLeast {level : ℕ | termCount.toNat ≤ 2 ^ level} (Binary.maximumTreeLevel termCount).toNat ∧
      CheckpointManifestValidator.maximumTreeLevel termCount = Binary.maximumTreeLevel termCount ∧
      CheckpointBlockValidator.maximumTreeLevel termCount = Binary.maximumTreeLevel termCount := by
  refine ⟨⟨?_, ?_⟩, CheckpointManifestValidator.maximumTreeLevel_eq termCount,
    CheckpointBlockValidator.maximumTreeLevel_eq termCount⟩
  · change termCount.toNat ≤ 2 ^ _
    rw [Binary.maximumTreeLevel_toNat]
    exact Nat.le_pow_clog (by decide) _
  · intro level hlevel
    rw [Binary.maximumTreeLevel_toNat]
    exact Nat.clog_le_of_le_pow hlevel

end GiveMePi.Checkpoint
