import GiveMePi.Checkpoint.CheckpointManifestValidator
import GiveMePi.Checkpoint.CheckpointStore

/-! # The writer of frontiers

A frontier is published in three phases: the blocks of its new nodes are written, the manifest is
replaced, and the blocks that only the manifest before it named are removed. -/

namespace GiveMePi.Checkpoint

open Binary (BinaryNode)
open Progress (CheckpointRangeProgress CheckpointProgressUpdate)

structure CheckpointFrontierWriter where
  directory : Bytes
  identity : ComputationIdentity
  interval : ℤ
  entries : List ManifestEntry
  lastCommit : Option ℤ
  commitCount : UInt64
  initialFrontierWork : Option UInt64
  initialFrontierWorkPublished : Bool
deriving DecidableEq, Repr

/-- A writer and the world it acts on. -/
structure WriterSession where
  world : World
  writer : CheckpointFrontierWriter

namespace WriterSession

variable {α : Type}

/-- An action of the world, in a session. -/
def onWorld (action : Action World α) : Action WriterSession α := fun session =>
  match action session.world with
  | .ok a world => .ok a { session with world := world }
  | .error e world => .error e { session with world := world }

def getWriter : Action WriterSession CheckpointFrontierWriter := fun session =>
  .ok session.writer session

def modifyWriter (f : CheckpointFrontierWriter → CheckpointFrontierWriter) :
    Action WriterSession Unit := fun session =>
  .ok () { session with writer := f session.writer }

end WriterSession

/-- An entry of the manifest to be published; a new node still lacks the metadata of its block. -/
structure CandidateEntry where
  entry : ManifestEntry
  newNode : Option BinaryNode
deriving DecidableEq, Repr

namespace CheckpointFrontierWriter

open WriterSession

/-- The clock counts nanoseconds. -/
def clockTicksPerSecond : ℤ := 1000000000

/-- The loop over the accepted entries in order, with the end of the entry before. -/
def validateEntries (directory : Bytes) (identity : ComputationIdentity) :
    UInt64 → List ManifestEntry → Except Error Unit
  | _, [] => pure ()
  | cursor, entry :: rest => do
      entry.location.validate identity
      throwIf (entry.location.start < cursor)
        (.invalidArgument "Accepted checkpoint entries overlap")
      throwIf (entry.completion ≠ CompletionState.complete)
        (.invalidArgument "Accepted checkpoint entry is incomplete")
      let path ← CheckpointStore.blockPath directory identity entry.location
      throwIf (entry.filename ≠ path.filename)
        (.invalidArgument "Accepted checkpoint entry filename is not deterministic")
      validateEntries directory identity entry.location.stop rest

/-- The constructor; the interval is given in seconds. -/
def create (directory : Bytes) (identity : ComputationIdentity) (interval : ℤ)
    (acceptedEntries : List ManifestEntry) : Except Error CheckpointFrontierWriter := do
  throwIf (directory = []) (.invalidArgument "Checkpoint directory must not be empty")
  identity.validate
  throwIf (interval < 0) (.invalidArgument "Checkpoint interval must not be negative")
  let entries := CheckpointManifestCodec.sortEntries acceptedEntries
  validateEntries directory identity 0 entries
  pure
    { directory := directory
      identity := identity
      interval := interval * clockTicksPerSecond
      entries := entries
      lastCommit := none
      commitCount := 0
      initialFrontierWork := none
      initialFrontierWorkPublished := false }

/-- `std::lower_bound` on entries in order. -/
def lowerBound (entries : List ManifestEntry) (location : BlockLocation) : List ManifestEntry :=
  entries.dropWhile fun entry => entry.location < location

def newCandidate (location : BlockLocation) (node : BinaryNode) :
    Except Error CandidateEntry := do
  throwIf (node.hasValues = false)
    (.logicError "New checkpoint frontier node has no resident P/Q/T payload")
  pure ⟨⟨location, [], 0, ChecksumAlgorithm.crc32c, 0, CompletionState.complete⟩, some node⟩

/-- An unchanged node keeps its published entry. -/
def candidateOf (existing : List ManifestEntry) (location : BlockLocation) (node : BinaryNode) :
    Except Error CandidateEntry :=
  match existing.head? with
  | none => newCandidate location node
  | some entry =>
      if entry.location = location then pure ⟨entry, none⟩ else newCandidate location node

/-- The loop over the nodes, with the entries not passed yet and the end of the node before. It
also returns the end of the last node. -/
def candidates (identity : ComputationIdentity) :
    List ManifestEntry → UInt64 → List (BinaryNode × UInt32) →
      Except Error (List CandidateEntry × UInt64)
  | _, cursor, [] => pure ([], cursor)
  | existing, cursor, (node, treeLevel) :: rest => do
      throwIf (node.start ≠ cursor)
        (.invalidArgument "Checkpoint frontier is not sorted and contiguous from zero")
      let location ← BlockLocation.create node.start node.stop treeLevel identity
      let existing := lowerBound existing location
      let candidate ← candidateOf existing location node
      let (others, cursor) ← candidates identity existing node.stop rest
      pure (candidate :: others, cursor)

def saveCandidate (directory : Bytes) (identity : ComputationIdentity)
    (candidate : CandidateEntry) : Action World ManifestEntry :=
  match candidate.newNode with
  | none => pure candidate.entry
  | some node => do
      let stored ← CheckpointStore.save directory identity candidate.entry.location node.p node.q
        node.t
      pure
        { candidate.entry with
          filename := stored.path.filename
          payloadSize := stored.payloadSize
          checksumAlgorithm := stored.checksumAlgorithm
          checksum := stored.checksum }

/-- The loop over the new nodes. -/
def saveCandidates (directory : Bytes) (identity : ComputationIdentity) :
    List CandidateEntry → Action World (List ManifestEntry)
  | [] => pure []
  | candidate :: rest => do
      let entry ← saveCandidate directory identity candidate
      let entries ← saveCandidates directory identity rest
      pure (entry :: entries)

/-- The bytes of the block files, which are header and payload. -/
def checkpointBytes (entries : List ManifestEntry) : UInt64 :=
  entries.foldl (fun total entry =>
    total + (CheckpointBlockCodec.version1HeaderSize.toUInt64 + entry.payloadSize)) 0

/-- The range of the last new node. -/
def lastCommitted (candidates : List CandidateEntry) : Option CheckpointRangeProgress :=
  (candidates.filter fun candidate => candidate.newNode.isSome).getLast?.map fun candidate =>
    ⟨candidate.entry.location.start, candidate.entry.location.stop,
      candidate.entry.location.treeLevel⟩

def publishProgress (writer : CheckpointFrontierWriter) (candidates : List CandidateEntry)
    (entries : List ManifestEntry) : Action World Unit := fun world =>
  let update : CheckpointProgressUpdate :=
    { completedBlocks :=
        if writer.initialFrontierWorkPublished then 0 else writer.initialFrontierWork.getD 0
      durableBlocks := UInt64.ofNat entries.length
      checkpointBytes := checkpointBytes entries
      lastCommitted := lastCommitted candidates }
  .ok () { world with
    tracker := world.tracker.map fun tracker => (tracker.publishCheckpointProgress update).2 }

/-- The loop over the entries published before, with the new entries not passed yet. -/
def removeSuperseded (directory : Bytes) (identity : ComputationIdentity) :
    List ManifestEntry → List ManifestEntry → Action World Unit
  | _, [] => pure ()
  | published, previous :: rest => do
      let published := lowerBound published previous.location
      if (published.head?.any fun entry => entry.location = previous.location) = true then pure ()
      else do
        let path ← CheckpointStore.blockPath directory identity previous.location
        World.removeQuietly path
      removeSuperseded directory identity published rest

/-- Whether the interval since the last commit has not elapsed. -/
def isGated (writer : CheckpointFrontierWriter) (nodes : List BinaryNode) : Action World Bool :=
  match writer.lastCommit with
  | none => pure false
  | some lastCommit =>
      if nodes.length = 1 then pure false
      else do
        let now ← World.now
        pure (now - lastCommit < writer.interval)

/-- The three phases. -/
def publish (candidates : List CandidateEntry) : Action WriterSession Unit := do
  modifyWriter fun writer =>
    { writer with
      initialFrontierWork :=
        if writer.initialFrontierWork.isSome then writer.initialFrontierWork
        else
          some (UInt64.ofNat
            (candidates.filter fun candidate => candidate.newNode.isSome).length) }
  let writer ← getWriter
  let entries ← onWorld (saveCandidates writer.directory writer.identity candidates)
  let _ ← onWorld (CheckpointStore.saveManifest writer.directory ⟨writer.identity, entries⟩)
  onWorld (publishProgress writer candidates entries)
  modifyWriter fun writer => { writer with initialFrontierWorkPublished := true }
  onWorld (removeSuperseded writer.directory writer.identity entries writer.entries)
  let now ← onWorld World.now
  modifyWriter fun writer =>
    { writer with
      entries := entries
      lastCommit := some now
      commitCount := writer.commitCount + 1 }

def commitFrontier (nodes : List BinaryNode) (treeLevels : List UInt32) :
    Action WriterSession Unit := do
  throwIf (nodes.length ≠ treeLevels.length)
    (.invalidArgument "Frontier node and tree-level counts differ")
  throwIf (nodes = []) (.invalidArgument "Checkpoint frontier must not be empty")
  let writer ← getWriter
  let gated ← onWorld (writer.isGated nodes)
  if gated then pure ()
  else do
    let (candidates, cursor) ← candidates writer.identity writer.entries 0 (nodes.zip treeLevels)
    throwIf (cursor ≠ writer.identity.termCount)
      (.invalidArgument "Checkpoint frontier does not cover every term")
    if writer.commitCount ≠ 0 ∧ (candidates.all fun candidate => candidate.newNode.isNone) ∧
        candidates.length = writer.entries.length then
      pure ()
    else do
      throwIf ((CheckpointManifestValidator.validate
          ⟨writer.identity, candidates.map fun candidate => candidate.entry⟩
          writer.identity).validation.isAccepted = false)
        (.invalidArgument "Checkpoint frontier would not form a resumable manifest")
      publish candidates

end CheckpointFrontierWriter

end GiveMePi.Checkpoint
