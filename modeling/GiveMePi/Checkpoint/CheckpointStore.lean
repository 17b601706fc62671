import GiveMePi.Checkpoint.AtomicFileCommit
import GiveMePi.Checkpoint.CheckpointManifest

/-! # The files of a checkpoint directory -/

namespace GiveMePi.Checkpoint

structure StoredCheckpointBlock where
  path : Path
  fileSize : UInt64
  payloadSize : UInt64
  checksumAlgorithm : ChecksumAlgorithm
  checksum : UInt32
deriving DecidableEq, Repr

/-- Reading a whole file. -/
def readFile (files : FileSystem) (path : Path) (tooLarge : String) : Except Error Bytes :=
  match files.lookup path with
  | none => throw (.systemError "cannot get file size")
  | some bytes => do
      throwIf (bytes.length > AtomicFileCommit.fileSizeMax) (.lengthError tooLarge)
      pure bytes

namespace CheckpointStore

/-- The part of a name that stands for the identity, behind a tag and the format version. -/
def identityFilename (tag : String) (formatVersion : UInt16) (identity : ComputationIdentity) :
    Bytes :=
  ascii tag ++ decimal formatVersion.toNat
    ++ ascii "-a" ++ decimal identity.algorithm.code.toNat
    ++ ascii "-av" ++ decimal identity.arithmeticVersion.toNat
    ++ ascii "-fv" ++ decimal identity.formulaVersion.toNat
    ++ ascii "-d" ++ decimal identity.requestedDigits.toNat
    ++ ascii "-g" ++ decimal identity.guardDigits.toNat
    ++ ascii "-w" ++ decimal identity.workingDigits.toNat
    ++ ascii "-n" ++ decimal identity.termCount.toNat

def blockFilename (identity : ComputationIdentity) (location : BlockLocation) : Bytes :=
  identityFilename "pqt-v" CheckpointBlockCodec.formatVersion identity
    ++ ascii "-r" ++ decimal location.start.toNat
    ++ ascii "-" ++ decimal location.stop.toNat
    ++ ascii "-l" ++ decimal location.treeLevel.toNat
    ++ ascii ".checkpoint"

def manifestFilename (identity : ComputationIdentity) : Bytes :=
  identityFilename "manifest-v" CheckpointManifestCodec.formatVersion identity
    ++ ascii ".manifest"

def blockPath (directory : Bytes) (identity : ComputationIdentity) (location : BlockLocation) :
    Except Error Path := do
  identity.validate
  location.validate identity
  pure ⟨directory, blockFilename identity location⟩

def manifestPath (directory : Bytes) (identity : ComputationIdentity) : Except Error Path := do
  identity.validate
  pure ⟨directory, manifestFilename identity⟩

def save (directory : Bytes) (identity : ComputationIdentity) (location : BlockLocation)
    (p q t : ℤ) : Action World StoredCheckpointBlock := do
  let destination ← blockPath directory identity location
  World.createDirectories directory
  let encoded ← CheckpointBlockCodec.encodeValues identity location p q t
  AtomicFileCommit.write destination encoded.bytes
  pure
    { path := destination
      fileSize := UInt64.ofNat encoded.bytes.length
      payloadSize := encoded.payloadSize
      checksumAlgorithm := encoded.checksumAlgorithm
      checksum := encoded.checksum }

def load (files : FileSystem) (directory : Bytes) (identity : ComputationIdentity)
    (location : BlockLocation) : Except Error CheckpointBlock := do
  let source ← blockPath directory identity location
  let bytes ← readFile files source "Checkpoint file exceeds stream limits"
  let block ← CheckpointBlockCodec.decode bytes
  throwIf (block.identity ≠ identity ∨ block.location ≠ location)
    (.invalidArgument "Checkpoint content does not match its deterministic path")
  pure block

def saveManifest (directory : Bytes) (manifest : CheckpointManifest) : Action World Path := do
  let destination ← manifestPath directory manifest.identity
  World.createDirectories directory
  let bytes ← CheckpointManifestCodec.encode manifest
  AtomicFileCommit.write destination bytes
  pure destination

def loadManifest (files : FileSystem) (directory : Bytes) (identity : ComputationIdentity) :
    Except Error CheckpointManifest := do
  let source ← manifestPath directory identity
  let bytes ← readFile files source "Checkpoint manifest is too large to load"
  let manifest ← CheckpointManifestCodec.decode bytes
  throwIf (manifest.identity ≠ identity)
    (.invalidArgument "Checkpoint manifest does not match its deterministic path")
  pure manifest

end CheckpointStore

end GiveMePi.Checkpoint
