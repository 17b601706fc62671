import GiveMePi.Checkpoint.PlanAdmissibility
import GiveMePi.Checkpoint.ResumePlan

/-! # What a plan leaves to calculate

The accepted blocks of a plan stand apart in order, and the ranges it leaves are the gaps between
them. -/

namespace GiveMePi.Checkpoint

open CheckpointManifestValidator (acceptedEntries_pairwise rangeOf)
open Library (Apart Meets Tiles gaps)
open World (Keeps)

/-! ## The complement -/

def MissingRange.range (missing : MissingRange) : UInt64 × UInt64 :=
  (missing.start, missing.stop)

def BlockLocation.range (location : BlockLocation) : UInt64 × UInt64 :=
  (location.start, location.stop)

namespace CheckpointResumePlanner

/-- The walk over locations that stand apart collects the gaps. -/
theorem map_range_complementFrom {termCount cursor : UInt64} {locations : List BlockLocation}
    (h : Apart cursor (locations.map BlockLocation.range) termCount) :
    (complementFrom termCount cursor locations).map MissingRange.range =
      gaps cursor (locations.map BlockLocation.range) termCount := by
  induction locations generalizing cursor with
  | nil =>
      simp only [complementFrom, List.map_nil, gaps]
      split <;> rfl
  | cons location rest ih =>
      obtain ⟨hstart, hlt, hrest⟩ := h
      have hmax : max cursor location.stop = location.stop :=
        max_eq_right (hstart.trans hlt.le)
      simp only [complementFrom, hmax, List.map_append, List.map_cons, BlockLocation.range, gaps,
        ih hrest]
      congr 1
      split <;> rfl

/-- Accepted blocks in order are left in order. -/
theorem finish_of_pairwise {identity : ComputationIdentity} {plan : CheckpointResumePlan}
    (h : plan.acceptedBlocks.Pairwise fun left right =>
      left.block.location.start < right.block.location.start) :
    finish identity plan =
      { plan with
        rangesToRecalculate := complementFrom identity.termCount 0
          (plan.acceptedBlocks.map fun checkpoint => checkpoint.block.location) } := by
  have hstarts : plan.acceptedBlocks.Pairwise fun left right =>
      decide (left.block.location.start ≤ right.block.location.start) = true :=
    h.imp fun hlt => decide_eq_true hlt.le
  have hlocations : (plan.acceptedBlocks.map fun checkpoint =>
      checkpoint.block.location).Pairwise fun left right =>
        decide (left.start ≤ right.start) = true :=
    List.pairwise_map.mpr hstarts
  rw [finish, List.mergeSort_of_pairwise hstarts, complement,
    List.mergeSort_of_pairwise hlocations]

/-- What was taken over from the files, as the manifest lists it, is admissible. -/
theorem areAdmissible_of_areListed {initial : FileSystem} {directory : Bytes}
    {identity : ComputationIdentity} {accepted : List AcceptedCheckpoint}
    (htaken : AreTaken initial directory identity accepted)
    (hlisted : AreListed initial directory identity accepted) : AreAdmissible identity accepted where
  pairwise := by
    rcases hlisted with rfl | ⟨manifest, -, hsublist⟩
    · exact List.Pairwise.nil
    · have hpairwise := List.pairwise_map.mp (acceptedEntries_pairwise.sublist hsublist)
      refine hpairwise.imp_of_mem fun hleft hright hle => ?_
      obtain ⟨block, -, -, rfl⟩ := htaken _ hleft
      obtain ⟨block', -, -, rfl⟩ := htaken _ hright
      exact hle
  resumable checkpoint hmem := by
    obtain ⟨block, hresumable, -, rfl⟩ := htaken checkpoint hmem
    exact hresumable
  entry checkpoint hmem := by
    obtain ⟨block, -, -, rfl⟩ := htaken checkpoint hmem
    rfl

end CheckpointResumePlanner

open CheckpointResumePlanner

/-- A plan whose accepted blocks are admissible leaves the gaps between them. -/
structure IsTiled (identity : ComputationIdentity) (plan : CheckpointResumePlan) : Prop where
  admissible : AreAdmissible identity plan.acceptedBlocks
  ranges : plan.rangesToRecalculate =
    complementFrom identity.termCount 0
      (plan.acceptedBlocks.map fun checkpoint => checkpoint.block.location)

namespace IsTiled

variable {identity : ComputationIdentity} {plan : CheckpointResumePlan}

theorem of_finish (h : AreAdmissible identity plan.acceptedBlocks) :
    IsTiled identity (finish identity plan) := by
  rw [finish_of_pairwise h.pairwise_start]
  exact ⟨h, rfl⟩

theorem gaps_eq (h : IsTiled identity plan) :
    plan.rangesToRecalculate.map MissingRange.range =
      gaps 0 (plan.acceptedBlocks.map AcceptedCheckpoint.range) identity.termCount := by
  have hapart := h.admissible.apart
  have hmap : plan.acceptedBlocks.map AcceptedCheckpoint.range =
      (plan.acceptedBlocks.map fun checkpoint => checkpoint.block.location).map
        BlockLocation.range := by
    rw [List.map_map]
    rfl
  rw [hmap] at hapart ⊢
  rw [h.ranges, map_range_complementFrom hapart]

/-- The accepted blocks and the ranges that are left tile the terms. -/
theorem exists_tiles (h : IsTiled identity plan) :
    ∃ ranges, Tiles 0 ranges identity.termCount ∧
      ranges.Perm (plan.acceptedBlocks.map AcceptedCheckpoint.range ++
        plan.rangesToRecalculate.map MissingRange.range) := by
  refine ⟨_, h.admissible.apart.tiles_filled, ?_⟩
  rw [h.gaps_eq]
  exact Library.filled_perm _ _ _

/-- Nothing is left exactly when the accepted blocks tile the terms. -/
theorem rangesToRecalculate_eq_nil (h : IsTiled identity plan) :
    plan.rangesToRecalculate = [] ↔
      Tiles 0 (plan.acceptedBlocks.map AcceptedCheckpoint.range) identity.termCount := by
  rw [← h.admissible.apart.gaps_eq_nil_iff, ← h.gaps_eq, List.map_eq_nil_iff]

end IsTiled

/-- Whatever is on disk, the plan of a run is tiled, and its blocks were found in the files. -/
theorem CheckpointResumePlanner.create_isTiled {initial : FileSystem}
    {directory quarantineDirectory : Bytes} {environment : Environment}
    (identity : ComputationIdentity) (hdirectory : directory ≠ [])
    (hquarantine : quarantineDirectory ≠ []) (hnames : FitsNames environment initial) :
    Meets (Keeps (noGuarantee environment) fun files => files = initial)
      (create directory quarantineDirectory identity)
      (fun plan world => (IsTiled identity plan ∧
        AreTaken initial directory identity plan.acceptedBlocks ∧
          AreListed initial directory identity plan.acceptedBlocks) ∧
            world.Keeps (noGuarantee environment) (Origin initial plan.acceptedBlocks))
      (fun _ _ => ¬ HasShortNames environment initial directory identity) := by
  refine (create_sound identity hdirectory hquarantine hnames).weaken ?_
  rintro plan world ⟨⟨progress, ⟨hsound, hlisted, -⟩, rfl⟩, hkeeps⟩
  have hadmissible := areAdmissible_of_areListed hsound.taken hlisted
  have hblocks : (finish identity progress.plan).acceptedBlocks = progress.plan.acceptedBlocks := by
    rw [finish_of_pairwise hadmissible.pairwise_start]
  refine ⟨⟨.of_finish hadmissible, ?_⟩, hkeeps⟩
  rw [hblocks]
  exact ⟨hsound.taken, hlisted⟩

end GiveMePi.Checkpoint
