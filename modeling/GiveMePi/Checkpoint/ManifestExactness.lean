import GiveMePi.Checkpoint.ManifestAcceptance

/-! # The validation of a manifest is exact

The validator accepts precisely the entries that are valid by themselves and overlap no other such
entry, and reports precisely the terms they leave out. Entries of one location may stand in either
order behind the sort; what is accepted does not depend on it. -/

namespace GiveMePi.Checkpoint.CheckpointManifestValidator

open CheckpointManifestCodec (IsSorted sortEntries sortEntries_pairwise sortEntries_perm)
open Library (Tiles Apart)

/-! ## Entries that no other one overlaps -/

instance (identity : ComputationIdentity) (entry : ManifestEntry) :
    Decidable (IsAcceptable identity entry) :=
  decidable_of_iff (entry.location.start < entry.location.stop ∧
      entry.location.stop ≤ identity.termCount ∧
        entry.location.treeLevel ≤ maximumTreeLevel identity.termCount ∧
          entry.completion = CompletionState.complete)
    ⟨fun h => ⟨h.1, h.2.1, h.2.2.1, h.2.2.2⟩,
      fun h => ⟨h.start_lt, h.stop_le, h.level_le, h.complete⟩⟩

instance (left right : ManifestEntry) : Decidable (Overlap left right) :=
  inferInstanceAs (Decidable (_ ∧ _))

/-- An entry of a list that is valid by itself and overlaps no other entry valid by itself. -/
def IsIsolated (identity : ComputationIdentity) (entries : List ManifestEntry)
    (entry : ManifestEntry) : Prop :=
  IsAcceptable identity entry ∧
    ∀ other ∈ entries.erase entry, IsAcceptable identity other → ¬ Overlap entry other

instance (identity : ComputationIdentity) (entries : List ManifestEntry) (entry : ManifestEntry) :
    Decidable (IsIsolated identity entries entry) :=
  inferInstanceAs (Decidable (_ ∧ _))

def isolatedEntries (identity : ComputationIdentity) (entries : List ManifestEntry) :
    List ManifestEntry :=
  entries.filter fun entry => IsIsolated identity entries entry

/-- What the search leaves of entries in a given order. -/
def acceptedOf (identity : ComputationIdentity) (sorted : List ManifestEntry) :
    List ManifestEntry :=
  selectEntries sorted
    (OverlapState.run 0 sorted ⟨individuallyRejected true identity sorted, none, []⟩).rejected

variable {identity : ComputationIdentity} {manifest : CheckpointManifest}
  {entries sorted : List ManifestEntry} {entry : ManifestEntry}

/-- The other positions of a list hold what is left when one occurrence is erased. -/
theorem forall_other_iff {i : ℕ} (hget : sorted[i]? = some entry) {P : ManifestEntry → Prop} :
    (∀ j other, j ≠ i → sorted[j]? = some other → P other) ↔
      ∀ other ∈ sorted.erase entry, P other := by
  obtain ⟨hi, rfl⟩ := List.getElem?_eq_some_iff.mp hget
  have hperm : (sorted.erase sorted[i]).Perm (sorted.eraseIdx i) :=
    List.Perm.cons_inv ((List.perm_cons_erase (List.getElem_mem hi)).symm.trans
      (List.getElem_cons_eraseIdx_perm hi).symm)
  simp only [hperm.mem_iff, List.mem_eraseIdx_iff_getElem?]
  constructor
  · rintro h other ⟨j, hne, hother⟩
    exact h j other hne hother
  · intro h j other hne hother
    exact h other ⟨j, hne, hother⟩

theorem isIsolated_congr (h : sorted.Perm entries) :
    IsIsolated identity sorted entry ↔ IsIsolated identity entries entry := by
  simp only [IsIsolated, (h.erase entry).mem_iff]

/-- The range of a valid entry is not empty, so it overlaps itself. -/
theorem IsAcceptable.overlap_self (h : IsAcceptable identity entry) : Overlap entry entry :=
  ⟨h.start_lt, h.start_lt⟩

theorem isolatedEntries_nodup : (isolatedEntries identity entries).Nodup := by
  rw [isolatedEntries, List.nodup_iff_count_le_one]
  intro entry
  by_contra hcount
  rw [not_le] at hcount
  have hmem := List.count_pos_iff.mp (Nat.zero_lt_of_lt hcount)
  have hisolated : IsIsolated identity entries entry := by
    simpa using (List.mem_filter.mp hmem).2
  have hother : entry ∈ entries.erase entry := by
    rw [← List.count_pos_iff, List.count_erase_self]
    have := hcount.trans_le (List.Sublist.count_le entry List.filter_sublist)
    omega
  exact hisolated.2 entry hother hisolated.1 hisolated.1.overlap_self

/-! ## What the search leaves -/

section Sorted

variable (hsorted : sorted.Pairwise fun left right => left.location ≤ right.location)
include hsorted

theorem mem_acceptedOf :
    entry ∈ acceptedOf identity sorted ↔ entry ∈ sorted ∧ IsIsolated identity sorted entry := by
  rw [acceptedOf, mem_selectEntries]
  constructor
  · rintro ⟨i, hget, hrejected⟩
    obtain ⟨-, hacceptable, hothers⟩ := (rejected_run_eq_false hsorted hget).mp hrejected
    exact ⟨List.mem_of_getElem? hget, hacceptable, (forall_other_iff hget).mp hothers⟩
  · rintro ⟨hmem, hacceptable, hothers⟩
    obtain ⟨i, hget⟩ := List.mem_iff_getElem?.mp hmem
    exact ⟨i, hget, (rejected_run_eq_false hsorted hget).mpr
      ⟨rfl, hacceptable, (forall_other_iff hget).mpr hothers⟩⟩

/-- What is left stands in order and apart. -/
theorem acceptedOf_pairwise : (acceptedOf identity sorted).Pairwise
    fun left right => left.location.stop ≤ right.location.start := by
  rw [acceptedOf]
  apply selectEntries_pairwise
  intro i j left right hij hleft hright hi hj
  obtain ⟨-, hleftValid, hdisjoint⟩ := (rejected_run_eq_false hsorted hleft).mp hi
  obtain ⟨-, hrightValid, -⟩ := (rejected_run_eq_false hsorted hright).mp hj
  have hstart : left.location.start ≤ right.location.start := by
    obtain ⟨hi', rfl⟩ := List.getElem?_eq_some_iff.mp hleft
    obtain ⟨hj', rfl⟩ := List.getElem?_eq_some_iff.mp hright
    exact BlockLocation.start_le_of_le (List.pairwise_iff_getElem.mp hsorted i j hi' hj' hij)
  by_contra hlt
  exact hdisjoint j right hij.ne' hright hrightValid
    ⟨hstart.trans_lt hrightValid.start_lt, not_le.mp hlt⟩

theorem acceptedOf_bounds (hmem : entry ∈ acceptedOf identity sorted) :
    IsAcceptable identity entry :=
  ((mem_acceptedOf hsorted).mp hmem).2.1

theorem acceptedOf_isSorted : IsSorted (acceptedOf identity sorted) := by
  refine (acceptedOf_pairwise hsorted).imp_of_mem fun hleft _ hle =>
    BlockLocation.lt_iff.mpr (Or.inl ?_)
  exact (acceptedOf_bounds hsorted hleft).start_lt.trans_le hle

theorem acceptedOf_apart :
    Apart 0 ((acceptedOf identity sorted).map rangeOf) identity.termCount := by
  refine Apart.of_pairwise (List.pairwise_map.mpr (acceptedOf_pairwise hsorted))
    (fun interval hmem => ?_) UInt64.zero_le
  obtain ⟨entry, hentry, rfl⟩ := List.mem_map.mp hmem
  have hacceptable := acceptedOf_bounds hsorted hentry
  exact ⟨UInt64.zero_le, hacceptable.start_lt, hacceptable.stop_le⟩

theorem acceptedOf_perm (hperm : sorted.Perm entries) :
    (acceptedOf identity sorted).Perm (isolatedEntries identity entries) := by
  have hnodup : (acceptedOf identity sorted).Nodup :=
    (acceptedOf_isSorted hsorted).imp fun hlt heq => hlt.ne (congrArg ManifestEntry.location heq)
  refine (List.perm_ext_iff_of_nodup hnodup isolatedEntries_nodup).mpr fun entry => ?_
  rw [mem_acceptedOf hsorted, isolatedEntries, List.mem_filter, decide_eq_true_eq,
    isIsolated_congr hperm, hperm.mem_iff]

end Sorted

/-- The order the sort leaves entries of one location in does not matter. -/
theorem acceptedOf_eq (hsorted : sorted.Pairwise fun left right => left.location ≤ right.location)
    (hperm : sorted.Perm entries) :
    acceptedOf identity sorted = acceptedOf identity (sortEntries entries) := by
  refine ((acceptedOf_perm hsorted hperm).trans (acceptedOf_perm (sortEntries_pairwise entries)
    (sortEntries_perm entries)).symm).eq_of_pairwise (fun left right _ _ hlt hgt => ?_)
      (acceptedOf_isSorted hsorted) (acceptedOf_isSorted (sortEntries_pairwise entries))
  exact absurd hlt hgt.not_gt

/-! ## The verdict -/

theorem orderDiagnostics_eq_nil_iff : orderDiagnostics entries = [] ↔ IsSorted entries := by
  refine ⟨fun h => ?_, orderDiagnostics_eq_nil⟩
  have hchain : entries.IsChain fun left right => left.location < right.location := by
    induction entries with
    | nil => exact List.isChain_nil
    | cons left rest ih =>
        cases rest with
        | nil => exact List.isChain_singleton left
        | cons right rest =>
            rw [orderDiagnostics] at h
            split at h
            · simp at h
            · next hlt => exact List.isChain_cons_cons.mpr ⟨not_le.mp hlt, ih h⟩
  have : IsTrans ManifestEntry fun left right => left.location < right.location :=
    ⟨fun _ _ _ => lt_trans⟩
  exact hchain.pairwise

/-- Where the accepted entries leave no term out, no entry is missing among them. -/
theorem mem_acceptedOf_of_tiles
    (hsorted : sorted.Pairwise fun left right => left.location ≤ right.location)
    (htiles : Tiles 0 ((acceptedOf identity sorted).map rangeOf) identity.termCount)
    (hmem : entry ∈ sorted) (hacceptable : IsAcceptable identity entry) :
    entry ∈ acceptedOf identity sorted := by
  have hgaps := htiles.apart.gaps_eq_nil_iff.mpr htiles
  have hcovers := htiles.apart.mem_gaps_iff entry.location.start
  simp only [hgaps, List.not_mem_nil, false_and, exists_false, false_iff, not_and, not_forall,
    not_not] at hcovers
  obtain ⟨interval, hinterval, hle, hlt⟩ :=
    hcovers UInt64.zero_le (hacceptable.start_lt.trans_le hacceptable.stop_le)
  obtain ⟨accepted, haccepted, rfl⟩ := List.mem_map.mp hinterval
  obtain ⟨-, -, hothers⟩ := (mem_acceptedOf hsorted).mp haccepted
  by_cases heq : entry = accepted
  · rwa [heq]
  · have hother : entry ∈ sorted.erase accepted := (List.mem_erase_of_ne heq).mpr hmem
    exact absurd ⟨hle.trans_lt hacceptable.start_lt, hlt⟩ (hothers entry hother hacceptable)

section Validate

variable (hidentity : identity.IsValid) (hsame : manifest.identity = identity)
include hidentity hsame

theorem acceptedEntries_eq_acceptedOf :
    (validate manifest identity).acceptedEntries =
      acceptedOf identity (sortEntries manifest.entries) := by
  rw [acceptedEntries_eq, finalRejected, identityDiagnostics_eq_nil.mpr ⟨hidentity, hsame⟩]
  rfl

/-- A manifest is accepted when its entries stand in order, are all accepted and tile the terms. -/
theorem validation_isAccepted_iff :
    (validate manifest identity).validation.isAccepted = true ↔ IsSorted manifest.entries ∧
      (validate manifest identity).acceptedEntries = manifest.entries ∧
        Tiles 0 (manifest.entries.map rangeOf) identity.termCount := by
  constructor
  · intro h
    have hacceptable (entry : ManifestEntry) (hmem : entry ∈ manifest.entries) :=
      isAcceptable_of_isAccepted h hmem
    rw [validate, ValidationResult.isAccepted_ofDiagnostics] at h
    simp only [List.append_eq_nil_iff, List.map_eq_nil_iff] at h
    obtain ⟨⟨⟨⟨-, horder⟩, -⟩, -⟩, hmissing⟩ := h
    have hsorted := orderDiagnostics_eq_nil_iff.mp horder
    have hle := hsorted.imp fun hlt => hlt.le
    have haccepted : (validate manifest identity).acceptedEntries =
        acceptedOf identity manifest.entries := by
      rw [acceptedEntries_eq_acceptedOf hidentity hsame,
        CheckpointManifestCodec.sortEntries_eq hsorted]
    have hnone : missingRanges identity.termCount 0
        (validate manifest identity).acceptedEntries = [] := hmissing
    rw [haccepted, missingRanges_eq, List.map_eq_nil_iff,
      (acceptedOf_apart hle).gaps_eq_nil_iff] at hnone
    have hall : acceptedOf identity manifest.entries = manifest.entries := by
      have hperm := (List.perm_ext_iff_of_nodup
        ((acceptedOf_isSorted hle).imp fun hlt heq => hlt.ne (congrArg ManifestEntry.location heq))
        (hsorted.imp fun hlt heq => hlt.ne (congrArg ManifestEntry.location heq))).mpr
          fun entry => ⟨fun hmem => ((mem_acceptedOf hle).mp hmem).1,
            fun hmem => mem_acceptedOf_of_tiles hle hnone hmem (hacceptable entry hmem)⟩
      exact hperm.eq_of_pairwise (fun _ _ _ _ hlt hgt => absurd hlt hgt.not_gt)
        (acceptedOf_isSorted hle) hsorted
    rw [hall] at haccepted hnone
    exact ⟨hsorted, haccepted, hnone⟩
  · intro h
    obtain ⟨-, haccepted, htiles⟩ := h
    exact (validate_of_tiles hidentity hsame
      (fun entry hmem => (acceptable_of_accepted (haccepted ▸ hmem)).2.1) htiles).1

end Validate

/-- For every manifest of the expected identity the accepted entries are those that no other valid
entry overlaps, whatever order the sort leaves equal locations in; the missing ranges are the rest
of the terms; and the manifest is accepted exactly when its entries stand in strict order, are all
accepted and tile the terms. -/
theorem validate_exact (manifest : CheckpointManifest) (identity : ComputationIdentity)
    (hidentity : identity.IsValid) (hsame : manifest.identity = identity) :
    ((validate manifest identity).acceptedEntries.Perm
        (isolatedEntries identity manifest.entries) ∧
      IsSorted (validate manifest identity).acceptedEntries ∧
      ∀ sorted, sorted.Perm manifest.entries →
        (sorted.Pairwise fun left right => left.location ≤ right.location) →
          acceptedOf identity sorted = (validate manifest identity).acceptedEntries) ∧
    ((∀ term, (∃ range ∈ (validate manifest identity).missingRanges,
        range.start ≤ term ∧ term < range.stop) ↔ term < identity.termCount ∧
          ∀ entry ∈ (validate manifest identity).acceptedEntries,
            ¬ (entry.location.start ≤ term ∧ term < entry.location.stop)) ∧
      (∀ range ∈ (validate manifest identity).missingRanges, range.start < range.stop) ∧
      (validate manifest identity).missingRanges.Pairwise
        fun left right => left.stop ≤ right.start) ∧
    ((validate manifest identity).validation.isAccepted = true ↔ IsSorted manifest.entries ∧
      (validate manifest identity).acceptedEntries = manifest.entries ∧
        Tiles 0 (manifest.entries.map rangeOf) identity.termCount) := by
  have hsorted := sortEntries_pairwise manifest.entries
  have hperm := sortEntries_perm manifest.entries
  have haccepted := acceptedEntries_eq_acceptedOf hidentity hsame
  have hmissing : (validate manifest identity).missingRanges =
      (Library.gaps 0 ((acceptedOf identity (sortEntries manifest.entries)).map rangeOf)
        identity.termCount).map fun gap => ⟨gap.1, gap.2⟩ := by
    rw [← missingRanges_eq, ← haccepted]
    rfl
  have hapart : Apart 0 ((acceptedOf identity (sortEntries manifest.entries)).map rangeOf)
      identity.termCount := acceptedOf_apart hsorted
  refine ⟨⟨?_, ?_, ?_⟩, ⟨?_, ?_, ?_⟩, validation_isAccepted_iff hidentity hsame⟩
  · rw [haccepted]
    exact acceptedOf_perm hsorted hperm
  · rw [haccepted]
    exact acceptedOf_isSorted hsorted
  · intro sorted hsame hpairwise
    rw [haccepted, acceptedOf_eq hpairwise hsame]
  · intro term
    have hgaps := hapart.mem_gaps_iff term
    simp only [List.forall_mem_map, rangeOf, UInt64.zero_le, true_and] at hgaps
    rw [hmissing, haccepted, ← hgaps]
    simp
  · rw [hmissing]
    intro range hmem
    obtain ⟨gap, hgap, rfl⟩ := List.mem_map.mp hmem
    exact (hapart.gaps_apart.bounds_of_mem hgap).2.1
  · rw [hmissing]
    exact List.pairwise_map.mpr hapart.gaps_apart.pairwise_le

/-- A manifest of ten digits in which one of two entries lies in the other. -/
def nestedManifest : CheckpointManifest where
  identity :=
    { algorithm := AlgorithmId.chudnovskyBinarySplitting
      arithmeticVersion := arithmeticFormatVersion
      formulaVersion := binarySplittingFormulaVersion
      requestedDigits := 10
      guardDigits := 16
      workingDigits := 26
      termCount := 3 }
  entries :=
    [⟨⟨1, 2, 0⟩, ascii "inner", 0, ChecksumAlgorithm.crc32c, 0, CompletionState.complete⟩,
      ⟨⟨0, 3, 2⟩, ascii "outer", 0, ChecksumAlgorithm.crc32c, 0, CompletionState.complete⟩]

theorem validate_exact_nested :
    let identity := nestedManifest.identity
    let validation := validate nestedManifest identity
    (validation.acceptedEntries.Perm (isolatedEntries identity nestedManifest.entries) ∧
      IsSorted validation.acceptedEntries ∧
      ∀ sorted, sorted.Perm nestedManifest.entries →
        (sorted.Pairwise fun left right => left.location ≤ right.location) →
          acceptedOf identity sorted = validation.acceptedEntries) ∧
    ((∀ term, (∃ range ∈ validation.missingRanges, range.start ≤ term ∧ term < range.stop) ↔
        term < identity.termCount ∧ ∀ entry ∈ validation.acceptedEntries,
          ¬ (entry.location.start ≤ term ∧ term < entry.location.stop)) ∧
      (∀ range ∈ validation.missingRanges, range.start < range.stop) ∧
      validation.missingRanges.Pairwise fun left right => left.stop ≤ right.start) ∧
    (validation.validation.isAccepted = true ↔ IsSorted nestedManifest.entries ∧
      validation.acceptedEntries = nestedManifest.entries ∧
        Tiles 0 (nestedManifest.entries.map rangeOf) identity.termCount) :=
  validate_exact nestedManifest nestedManifest.identity (by decide) rfl

end GiveMePi.Checkpoint.CheckpointManifestValidator
