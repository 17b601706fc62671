import GiveMePi.Checkpoint.CheckpointManifestValidator
import GiveMePi.Checkpoint.ManifestFormat
import GiveMePi.Library.Tiling

/-! # Which entries of a manifest are accepted

The accepted entries are those that are valid by themselves and overlap no other such entry. With
the missing ranges they tile the terms. -/

namespace GiveMePi.Checkpoint

open Library (Tiles)

theorem BlockLocation.start_le_of_le {left right : BlockLocation} (h : left ≤ right) :
    left.start ≤ right.start := by
  rcases h.lt_or_eq with hlt | rfl
  · rcases BlockLocation.lt_iff.mp hlt with hstart | ⟨hstart, _⟩
    · exact hstart.le
    · exact hstart.le
  · exact le_rfl

namespace CheckpointManifestValidator

open CheckpointManifestCodec (sortEntries sortEntries_pairwise sortEntries_perm)

/-- An entry that is valid by itself. -/
structure IsAcceptable (identity : ComputationIdentity) (entry : ManifestEntry) : Prop where
  start_lt : entry.location.start < entry.location.stop
  stop_le : entry.location.stop ≤ identity.termCount
  level_le : entry.location.treeLevel ≤ maximumTreeLevel identity.termCount
  complete : entry.completion = CompletionState.complete

theorem rangeDiagnostics_eq_nil {identity : ComputationIdentity} {entry : ManifestEntry} :
    rangeDiagnostics identity entry = [] ↔
      entry.location.start < entry.location.stop ∧ entry.location.stop ≤ identity.termCount := by
  rw [← BlockLocation.validate_eq_ok (u := ()), rangeDiagnostics]
  cases entry.location.validate identity <;> simp

theorem entryDiagnostics_eq_nil {identity : ComputationIdentity} {entry : ManifestEntry} :
    entryDiagnostics identity entry = [] ↔ IsAcceptable identity entry := by
  simp only [entryDiagnostics, List.append_eq_nil_iff, rangeDiagnostics_eq_nil, ite_eq_right_iff,
    List.cons_ne_nil, imp_false, not_lt, gt_iff_lt, not_not]
  constructor
  · intro h
    exact ⟨h.1.1.1, h.1.1.2, h.1.2, h.2⟩
  · intro h
    exact ⟨⟨⟨h.start_lt, h.stop_le⟩, h.level_le⟩, h.complete⟩

/-- The ranges of two entries have a term in common. -/
def Overlap (left right : ManifestEntry) : Prop :=
  left.location.start < right.location.stop ∧ right.location.start < left.location.stop

/-! ## The search for overlaps -/

namespace OverlapState

/-- What holds when the entries before an index are done: the flags are final among them, and the
furthest entry is known. -/
structure Invariant (initial : ℕ → Bool) (sorted : List ManifestEntry) (index : ℕ)
    (state : OverlapState) : Prop where
  later : ∀ i, index ≤ i → state.rejected i = initial i
  earlier : ∀ i entry, i < index → sorted[i]? = some entry →
    (state.rejected i = true ↔ initial i = true ∨ ∃ j other, j < index ∧ j ≠ i ∧
      initial j = false ∧ sorted[j]? = some other ∧ Overlap entry other)
  furthest_none : state.furthest = none → ∀ i, i < index → initial i = true
  furthest_some : ∀ f furthest, state.furthest = some (f, furthest) →
    f < index ∧ initial f = false ∧ sorted[f]? = some furthest ∧
      ∀ i entry, i < index → initial i = false → sorted[i]? = some entry →
        entry.location.stop ≤ furthest.location.stop

variable {initial : ℕ → Bool} {sorted : List ManifestEntry} {index : ℕ} {entry : ManifestEntry}
  {state : OverlapState}

@[simp] theorem rejected_advance (state : OverlapState) (index : ℕ) (entry : ManifestEntry) :
    (state.advance index entry).rejected = state.rejected := by
  rw [advance]
  split
  · rfl
  · split <;> rfl

@[simp] theorem furthest_reject (state : OverlapState) (index : ℕ) (entry : ManifestEntry) :
    (state.reject index entry).furthest = state.furthest := by
  rw [reject]
  split
  · rfl
  · split <;> rfl

theorem reject_of_none (h : state.furthest = none) : state.reject index entry = state := by
  rw [reject, h]

theorem reject_of_lt {f : ℕ} {furthest : ManifestEntry} (h : state.furthest = some (f, furthest))
    (hlt : entry.location.start < furthest.location.stop) (i : ℕ) :
    (state.reject index entry).rejected i = true ↔ i = f ∨ i = index ∨ state.rejected i = true := by
  rw [reject, h]
  simp only [if_pos hlt, Function.update_apply]
  split
  · simp [*]
  · split <;> simp [*]

theorem reject_of_le {f : ℕ} {furthest : ManifestEntry} (h : state.furthest = some (f, furthest))
    (hle : furthest.location.stop ≤ entry.location.start) : state.reject index entry = state := by
  rw [reject, h]
  exact if_neg hle.not_gt

/-- An entry that adds nothing new to what is found before it. -/
theorem exists_lt_succ_iff {rejected : Prop} {found : ℕ → ManifestEntry → Prop}
    (hnew : ∀ other, found index other →
      rejected ∨ ∃ j other, j < index ∧ found j other) :
    (rejected ∨ ∃ j other, j < index ∧ found j other) ↔
      rejected ∨ ∃ j other, j < index + 1 ∧ found j other := by
  constructor
  · rintro (hrejected | ⟨j, other, hj, hfound⟩)
    · exact .inl hrejected
    · exact .inr ⟨j, other, Nat.lt_succ_of_lt hj, hfound⟩
  · rintro (hrejected | ⟨j, other, hj, hfound⟩)
    · exact .inl hrejected
    · rcases Nat.lt_succ_iff_lt_or_eq.mp hj with hj | rfl
      · exact .inr ⟨j, other, hj, hfound⟩
      · exact hnew other hfound

/-- A rejected entry changes nothing. -/
theorem Invariant.skip (h : Invariant initial sorted index state) (hinitial : initial index = true) :
    Invariant initial sorted (index + 1) state := by
  have hcases (i : ℕ) (hi : i < index + 1) (hfalse : initial i = false) : i < index := by
    rcases Nat.lt_succ_iff_lt_or_eq.mp hi with hlt | rfl
    · exact hlt
    · rw [hinitial] at hfalse
      cases hfalse
  refine ⟨fun i hi => h.later i (Nat.le_of_succ_le hi), fun i e hi he => ?_, fun hnone i hi => ?_,
    fun f furthest hsome => ?_⟩
  · rcases Nat.lt_succ_iff_lt_or_eq.mp hi with hlt | rfl
    · rw [h.earlier i e hlt he]
      apply exists_lt_succ_iff
      rintro other ⟨_, hfalse, _⟩
      rw [hinitial] at hfalse
      cases hfalse
    · simp [h.later i le_rfl, hinitial]
  · rcases Nat.lt_succ_iff_lt_or_eq.mp hi with hlt | rfl
    · exact h.furthest_none hnone i hlt
    · exact hinitial
  · obtain ⟨hf, hfalse, hget, hmax⟩ := h.furthest_some f furthest hsome
    exact ⟨Nat.lt_succ_of_lt hf, hfalse, hget,
      fun i e hi hi' => hmax i e (hcases i hi hi') hi'⟩

/-- The flags after an entry that was not rejected before: they count its overlaps. -/
theorem Invariant.earlier_reject (h : Invariant initial sorted index state)
    (hsorted : sorted.Pairwise fun left right => left.location ≤ right.location)
    (hvalid : ∀ i e, initial i = false → sorted[i]? = some e → e.location.start < e.location.stop)
    (hinitial : initial index = false) (hentry : sorted[index]? = some entry) {i : ℕ}
    {e : ManifestEntry} (hi : i < index + 1) (he : sorted[i]? = some e) :
    (state.reject index entry).rejected i = true ↔ initial i = true ∨ ∃ j other, j < index + 1 ∧
      j ≠ i ∧ initial j = false ∧ sorted[j]? = some other ∧ Overlap e other := by
  have hstart {j : ℕ} {other : ManifestEntry} (hj : j < index) (hother : sorted[j]? = some other) :
      other.location.start ≤ entry.location.start := by
    obtain ⟨hj', rfl⟩ := List.getElem?_eq_some_iff.mp hother
    obtain ⟨hindex, rfl⟩ := List.getElem?_eq_some_iff.mp hentry
    exact BlockLocation.start_le_of_le (List.pairwise_iff_getElem.mp hsorted j index hj' hindex hj)
  have hentry_lt := hvalid index entry hinitial hentry
  cases hfurthest : state.furthest with
  | none =>
      have hall := h.furthest_none hfurthest
      rw [reject_of_none hfurthest]
      rcases Nat.lt_succ_iff_lt_or_eq.mp hi with hlt | rfl
      · have hrejected := (h.earlier i e hlt he).mpr (Or.inl (hall i hlt))
        simp [hrejected, hall i hlt]
      · rw [h.later i le_rfl, hinitial]
        simp only [Bool.false_eq_true, false_or, false_iff, not_exists, not_and]
        intro j other hj hne hfalse
        have := hall j (lt_of_le_of_ne (Nat.le_of_lt_succ hj) hne)
        rw [hfalse] at this
        cases this
  | some pair =>
      obtain ⟨f, furthest⟩ := pair
      obtain ⟨hf, hffalse, hfget, hmax⟩ := h.furthest_some f furthest hfurthest
      have hfstart := hstart hf hfget
      by_cases hlt : entry.location.start < furthest.location.stop
      · rw [reject_of_lt hfurthest hlt]
        by_cases hif : i = f
        · -- the furthest entry overlaps the new one
          subst hif
          obtain rfl : furthest = e := Option.some.inj (hfget.symm.trans he)
          refine iff_of_true (Or.inl rfl) (Or.inr ⟨index, entry, Nat.lt_succ_self _, hf.ne',
            hinitial, hentry, hfstart.trans_lt hentry_lt, hlt⟩)
        · rcases Nat.lt_succ_iff_lt_or_eq.mp hi with hi | rfl
          · -- an earlier entry that overlaps the new one overlaps the furthest one already
            rw [or_iff_right hif, or_iff_right hi.ne, h.earlier i e hi he]
            apply exists_lt_succ_iff
            rintro other ⟨_, _, hget, hoverlap⟩
            obtain rfl : entry = other := Option.some.inj (hentry.symm.trans hget)
            exact .inr ⟨f, furthest, hf, Ne.symm hif, hffalse, hfget, (hstart hi he).trans_lt hlt,
              hfstart.trans_lt hoverlap.2⟩
          · obtain rfl : entry = e := Option.some.inj (hentry.symm.trans he)
            exact iff_of_true (Or.inr (Or.inl rfl)) (Or.inr ⟨f, furthest, Nat.lt_succ_of_lt hf, hf.ne,
              hffalse, hfget, hlt, hfstart.trans_lt hentry_lt⟩)
      · -- nothing before reaches the new entry
        rw [not_lt] at hlt
        have hnone {j : ℕ} {other : ManifestEntry} (hj : j < index) (hfalse : initial j = false)
            (hget : sorted[j]? = some other) : other.location.stop ≤ entry.location.start :=
          (hmax j other hj hfalse hget).trans hlt
        rw [reject_of_le hfurthest hlt]
        rcases Nat.lt_succ_iff_lt_or_eq.mp hi with hi | rfl
        · rw [h.earlier i e hi he]
          apply exists_lt_succ_iff
          rintro other ⟨_, _, hget, hoverlap⟩
          obtain rfl : entry = other := Option.some.inj (hentry.symm.trans hget)
          cases hi' : initial i with
          | true => exact .inl rfl
          | false => exact absurd hoverlap.2 (hnone hi hi' he).not_gt
        · rw [h.later i le_rfl, hinitial]
          simp only [Bool.false_eq_true, false_or, false_iff, not_exists, not_and]
          intro j other hj hne hfalse hget hoverlap
          obtain rfl : entry = e := Option.some.inj (hentry.symm.trans he)
          exact absurd hoverlap.1
            (hnone (lt_of_le_of_ne (Nat.le_of_lt_succ hj) hne) hfalse hget).not_gt

theorem Invariant.step (h : Invariant initial sorted index state)
    (hsorted : sorted.Pairwise fun left right => left.location ≤ right.location)
    (hvalid : ∀ i e, initial i = false → sorted[i]? = some e → e.location.start < e.location.stop)
    (hentry : sorted[index]? = some entry) :
    Invariant initial sorted (index + 1) (state.step index entry) := by
  have hcurrent := h.later index le_rfl
  rw [OverlapState.step]
  split
  · next hrejected => exact h.skip (hcurrent ▸ hrejected)
  · next hrejected =>
      have hinitial : initial index = false := by
        rw [← hcurrent]
        exact Bool.eq_false_of_not_eq_true hrejected
      refine ⟨fun i hi => ?_, fun i e hi he => ?_, ?_, ?_⟩
      · rw [rejected_advance, ← h.later i (Nat.le_of_succ_le hi)]
        cases hfurthest : state.furthest with
        | none => rw [reject_of_none hfurthest]
        | some pair =>
            obtain ⟨f, furthest⟩ := pair
            have hf := (h.furthest_some f furthest hfurthest).1
            by_cases hlt : entry.location.start < furthest.location.stop
            · rw [Bool.eq_iff_iff, reject_of_lt hfurthest hlt, or_iff_right (by omega),
                or_iff_right (by omega)]
            · rw [reject_of_le hfurthest (not_lt.mp hlt)]
      · rw [rejected_advance]
        exact h.earlier_reject hsorted hvalid hinitial hentry hi he
      · intro hnone
        rw [advance, furthest_reject] at hnone
        cases hfurthest : state.furthest with
        | none => simp [hfurthest] at hnone
        | some pair =>
            simp only [hfurthest] at hnone
            split at hnone <;> simp [hfurthest] at hnone
      · intro f furthest hsome
        rw [advance, furthest_reject] at hsome
        cases hfurthest : state.furthest with
        | none =>
            simp only [hfurthest, Option.some.injEq, Prod.mk.injEq] at hsome
            obtain ⟨rfl, rfl⟩ := hsome
            refine ⟨Nat.lt_succ_self _, hinitial, hentry, fun i e hi hfalse he => ?_⟩
            rcases Nat.lt_succ_iff_lt_or_eq.mp hi with hi | rfl
            · rw [h.furthest_none hfurthest i hi] at hfalse
              cases hfalse
            · obtain rfl : entry = e := Option.some.inj (hentry.symm.trans he)
              exact le_rfl
        | some pair =>
            obtain ⟨g, old⟩ := pair
            obtain ⟨hg, hgfalse, hgget, hmax⟩ := h.furthest_some g old hfurthest
            simp only [hfurthest] at hsome
            split at hsome
            · next hgt =>
                simp only [Option.some.injEq, Prod.mk.injEq] at hsome
                obtain ⟨rfl, rfl⟩ := hsome
                refine ⟨Nat.lt_succ_self _, hinitial, hentry, fun i e hi hfalse he => ?_⟩
                rcases Nat.lt_succ_iff_lt_or_eq.mp hi with hi | rfl
                · exact (hmax i e hi hfalse he).trans hgt.le
                · obtain rfl : entry = e := Option.some.inj (hentry.symm.trans he)
                  exact le_rfl
            · next hle =>
                rw [furthest_reject, hfurthest, Option.some.injEq, Prod.mk.injEq] at hsome
                obtain ⟨rfl, rfl⟩ := hsome
                refine ⟨Nat.lt_succ_of_lt hg, hgfalse, hgget, fun i e hi hfalse he => ?_⟩
                rcases Nat.lt_succ_iff_lt_or_eq.mp hi with hi | rfl
                · exact hmax i e hi hfalse he
                · obtain rfl : entry = e := Option.some.inj (hentry.symm.trans he)
                  exact not_lt.mp hle

/-- The loop keeps the invariant to the end of the entries. -/
theorem Invariant.run (hsorted : sorted.Pairwise fun left right => left.location ≤ right.location)
    (hvalid : ∀ i e, initial i = false → sorted[i]? = some e → e.location.start < e.location.stop)
    {before rest : List ManifestEntry} (hsplit : sorted = before ++ rest)
    (h : Invariant initial sorted before.length state) :
    Invariant initial sorted sorted.length (OverlapState.run before.length rest state) := by
  induction rest generalizing before state with
  | nil =>
      rw [List.append_nil] at hsplit
      rw [OverlapState.run, hsplit]
      rwa [hsplit] at h
  | cons entry rest ih =>
      have hentry : sorted[before.length]? = some entry := by
        rw [hsplit]
        simp
      have hnext := ih (show sorted = before ++ [entry] ++ rest by rw [hsplit]; simp)
        (by rw [List.length_append]; exact h.step hsorted hvalid hentry)
      rw [OverlapState.run]
      rwa [List.length_append] at hnext

theorem Invariant.run_all
    (hsorted : sorted.Pairwise fun left right => left.location ≤ right.location)
    (hvalid : ∀ i e, initial i = false → sorted[i]? = some e →
      e.location.start < e.location.stop) :
    Invariant initial sorted sorted.length (OverlapState.run 0 sorted ⟨initial, none, []⟩) :=
  Invariant.run hsorted hvalid (List.nil_append sorted).symm
    ⟨fun _ _ => rfl, fun i _ hi => absurd hi (Nat.not_lt_zero i),
      fun _ i hi => absurd hi (Nat.not_lt_zero i), fun _ _ h => by cases h⟩

/-- Entries that stand apart in order cause no diagnostic. -/
theorem diagnostics_run {rest : List ManifestEntry}
    (hrest : rest.Pairwise fun left right => left.location.stop ≤ right.location.start)
    (hfurthest : ∀ f furthest, state.furthest = some (f, furthest) → ∀ entry ∈ rest,
      furthest.location.stop ≤ entry.location.start) :
    (OverlapState.run index rest state).diagnostics = state.diagnostics := by
  induction rest generalizing index state with
  | nil => rfl
  | cons entry rest ih =>
      obtain ⟨hentry, hrest⟩ := List.pairwise_cons.mp hrest
      have hreject : state.reject index entry = state := by
        cases h : state.furthest with
        | none => exact reject_of_none h
        | some pair => exact reject_of_le h (hfurthest pair.1 pair.2 h entry List.mem_cons_self)
      rw [OverlapState.run]
      by_cases hrejected : state.rejected index = true
      · rw [OverlapState.step, if_pos hrejected]
        exact ih hrest fun f furthest h other hmem =>
          hfurthest f furthest h other (List.mem_cons_of_mem _ hmem)
      · have hadvance : (state.advance index entry).diagnostics = state.diagnostics := by
          rw [advance]
          split
          · rfl
          · split <;> rfl
        rw [OverlapState.step, if_neg hrejected, hreject, ih hrest, hadvance]
        intro f furthest h other hmem
        rw [advance] at h
        split at h
        · cases h
          exact hentry other hmem
        · next g old hold =>
            split at h
            · cases h
              exact hentry other hmem
            · exact hfurthest f furthest h other (List.mem_cons_of_mem _ hmem)

end OverlapState

/-! ## The entries that are left -/

theorem mem_selectEntries {sorted : List ManifestEntry} {rejected : ℕ → Bool}
    {entry : ManifestEntry} :
    entry ∈ selectEntries sorted rejected ↔ ∃ i, sorted[i]? = some entry ∧ rejected i = false := by
  simp only [selectEntries, List.mem_filterMap, Prod.exists, List.mem_zipIdx_iff_getElem?]
  constructor
  · intro h
    obtain ⟨other, i, hget, hselect⟩ := h
    split at hselect
    · cases hselect
    · next hrejected =>
        cases hselect
        exact ⟨i, hget, Bool.eq_false_of_not_eq_true hrejected⟩
  · intro h
    obtain ⟨i, hget, hrejected⟩ := h
    exact ⟨entry, i, hget, by simp [hrejected]⟩

theorem selectEntries_pairwise {sorted : List ManifestEntry} {rejected : ℕ → Bool}
    {R : ManifestEntry → ManifestEntry → Prop}
    (h : ∀ i j left right, i < j → sorted[i]? = some left → sorted[j]? = some right →
      rejected i = false → rejected j = false → R left right) :
    (selectEntries sorted rejected).Pairwise R := by
  rw [selectEntries, List.pairwise_filterMap, List.pairwise_iff_getElem]
  intro i j hi hj hij left hleft right hright
  simp only [List.getElem_zipIdx, Nat.zero_add] at hleft hright
  rw [List.length_zipIdx] at hi hj
  cases hrejectedLeft : rejected i with
  | true => simp [hrejectedLeft] at hleft
  | false =>
      cases hrejectedRight : rejected j with
      | true => simp [hrejectedRight] at hright
      | false =>
          simp only [hrejectedLeft, hrejectedRight, Bool.false_eq_true, if_false,
            Option.some.injEq] at hleft hright
          exact h i j left right hij (List.getElem?_eq_some_iff.mpr ⟨hi, hleft⟩)
            (List.getElem?_eq_some_iff.mpr ⟨hj, hright⟩) hrejectedLeft hrejectedRight

theorem selectEntries_of_forall {sorted : List ManifestEntry} {rejected : ℕ → Bool}
    (h : ∀ i, i < sorted.length → rejected i = false) : selectEntries sorted rejected = sorted := by
  have hselect : selectEntries sorted rejected = sorted.zipIdx.filterMap (some ∘ Prod.fst) := by
    apply List.filterMap_congr
    intro pair hmem
    have hlt := List.snd_lt_add_of_mem_zipIdx hmem
    rw [Nat.zero_add] at hlt
    simp [h pair.2 hlt]
  rw [hselect, List.filterMap_eq_map, List.zipIdx_map_fst]

theorem individuallyRejected_eq_false {identityValid : Bool} {identity : ComputationIdentity}
    {sorted : List ManifestEntry} {i : ℕ} {entry : ManifestEntry} (hget : sorted[i]? = some entry) :
    individuallyRejected identityValid identity sorted i = false ↔
      identityValid = true ∧ IsAcceptable identity entry := by
  rw [individuallyRejected, hget]
  simp [entryDiagnostics_eq_nil]

/-- An entry stays exactly when it is valid by itself and no other such entry overlaps it. -/
theorem rejected_run_eq_false {identityValid : Bool} {identity : ComputationIdentity}
    {sorted : List ManifestEntry} {i : ℕ} {entry : ManifestEntry}
    (hsorted : sorted.Pairwise fun left right => left.location ≤ right.location)
    (hget : sorted[i]? = some entry) :
    (OverlapState.run 0 sorted
      ⟨individuallyRejected identityValid identity sorted, none, []⟩).rejected i = false ↔
        identityValid = true ∧ IsAcceptable identity entry ∧
          ∀ j other, j ≠ i → sorted[j]? = some other → IsAcceptable identity other →
            ¬ Overlap entry other := by
  have hvalid (i : ℕ) (e : ManifestEntry)
      (hfalse : individuallyRejected identityValid identity sorted i = false)
      (he : sorted[i]? = some e) : e.location.start < e.location.stop :=
    ((individuallyRejected_eq_false he).mp hfalse).2.start_lt
  have hinvariant := OverlapState.Invariant.run_all hsorted hvalid
  have hlt := (List.getElem?_eq_some_iff.mp hget).1
  rw [← Bool.not_eq_true, hinvariant.earlier i entry hlt hget, not_or, Bool.not_eq_true,
    individuallyRejected_eq_false hget, and_assoc]
  refine and_congr_right fun hidentity => and_congr_right fun _ => ?_
  constructor
  · intro h j other hne hother hacceptable hoverlap
    exact h ⟨j, other, (List.getElem?_eq_some_iff.mp hother).1, hne,
      (individuallyRejected_eq_false hother).mpr ⟨hidentity, hacceptable⟩, hother, hoverlap⟩
  · intro h hoverlap
    obtain ⟨j, other, _, hne, hfalse, hother, hoverlap⟩ := hoverlap
    exact h j other hne hother ((individuallyRejected_eq_false hother).mp hfalse).2 hoverlap

variable (manifest : CheckpointManifest) (identity : ComputationIdentity)

/-- The flags at the end of the search. -/
def finalRejected : ℕ → Bool :=
  (OverlapState.run 0 (sortEntries manifest.entries)
    ⟨individuallyRejected (identityDiagnostics manifest identity).isEmpty identity
      (sortEntries manifest.entries), none, []⟩).rejected

theorem acceptedEntries_eq :
    (validate manifest identity).acceptedEntries =
      selectEntries (sortEntries manifest.entries) (finalRejected manifest identity) := rfl

variable {manifest identity}

theorem finalRejected_eq_false {i : ℕ} {entry : ManifestEntry}
    (hget : (sortEntries manifest.entries)[i]? = some entry) :
    finalRejected manifest identity i = false ↔
      identityDiagnostics manifest identity = [] ∧ IsAcceptable identity entry ∧
        ∀ j other, j ≠ i → (sortEntries manifest.entries)[j]? = some other →
          IsAcceptable identity other → ¬ Overlap entry other := by
  rw [finalRejected, rejected_run_eq_false (sortEntries_pairwise manifest.entries) hget,
    List.isEmpty_iff]

/-- What is accepted is valid by itself, and the identities agree. -/
theorem acceptable_of_accepted {entry : ManifestEntry}
    (h : entry ∈ (validate manifest identity).acceptedEntries) :
    entry ∈ manifest.entries ∧ IsAcceptable identity entry ∧
      identityDiagnostics manifest identity = [] := by
  rw [acceptedEntries_eq, mem_selectEntries] at h
  obtain ⟨i, hget, hrejected⟩ := h
  obtain ⟨hidentity, hacceptable, _⟩ := (finalRejected_eq_false hget).mp hrejected
  exact ⟨(sortEntries_perm _).mem_iff.mp (List.mem_of_getElem? hget), hacceptable, hidentity⟩

/-- The accepted entries stand in order and do not overlap. -/
theorem acceptedEntries_pairwise :
    (validate manifest identity).acceptedEntries.Pairwise
      fun left right => left.location.stop ≤ right.location.start := by
  rw [acceptedEntries_eq]
  apply selectEntries_pairwise
  intro i j left right hij hleft hright hi hj
  obtain ⟨_, hleftValid, hdisjoint⟩ := (finalRejected_eq_false hleft).mp hi
  obtain ⟨_, hrightValid, _⟩ := (finalRejected_eq_false hright).mp hj
  have hstart : left.location.start ≤ right.location.start := by
    obtain ⟨hi', rfl⟩ := List.getElem?_eq_some_iff.mp hleft
    obtain ⟨hj', rfl⟩ := List.getElem?_eq_some_iff.mp hright
    exact BlockLocation.start_le_of_le
      (List.pairwise_iff_getElem.mp (sortEntries_pairwise manifest.entries) i j hi' hj' hij)
  by_contra hlt
  exact hdisjoint j right hij.ne' hright hrightValid
    ⟨hstart.trans_lt hrightValid.start_lt, not_le.mp hlt⟩

/-- The range of an entry. -/
def rangeOf (entry : ManifestEntry) : UInt64 × UInt64 :=
  (entry.location.start, entry.location.stop)

theorem missingRanges_eq (termCount cursor : UInt64) (entries : List ManifestEntry) :
    missingRanges termCount cursor entries =
      (Library.gaps cursor (entries.map rangeOf) termCount).map fun gap => ⟨gap.1, gap.2⟩ := by
  induction entries generalizing cursor with
  | nil =>
      rw [missingRanges, List.map_nil, Library.gaps]
      split <;> rfl
  | cons entry rest ih =>
      rw [missingRanges, List.map_cons, ih]
      change _ = ((if cursor < entry.location.start then _ else _) ++ _ : List _).map _
      rw [List.map_append]
      split <;> rfl

theorem acceptedEntries_apart :
    Library.Apart 0 ((validate manifest identity).acceptedEntries.map rangeOf)
      identity.termCount := by
  refine Library.Apart.of_pairwise (List.pairwise_map.mpr acceptedEntries_pairwise)
    (fun interval hmem => ?_) UInt64.zero_le
  obtain ⟨entry, hentry, rfl⟩ := List.mem_map.mp hmem
  have hacceptable := (acceptable_of_accepted hentry).2.1
  exact ⟨UInt64.zero_le, hacceptable.start_lt, hacceptable.stop_le⟩

/-! ## Manifests without gaps -/

/-- A manifest passes only if each entry is valid by itself. -/
theorem isAcceptable_of_isAccepted (h : (validate manifest identity).validation.isAccepted = true)
    {entry : ManifestEntry} (hmem : entry ∈ manifest.entries) : IsAcceptable identity entry := by
  rw [validate, ValidationResult.isAccepted_ofDiagnostics] at h
  simp only [List.append_eq_nil_iff, List.flatMap_eq_nil_iff] at h
  exact entryDiagnostics_eq_nil.mp (h.1.1.2 entry ((sortEntries_perm _).mem_iff.mpr hmem))

theorem identityDiagnostics_eq_nil :
    identityDiagnostics manifest identity = [] ↔ identity.IsValid ∧ manifest.identity = identity := by
  rw [identityDiagnostics]
  constructor
  · intro h
    cases hexpected : identity.validate with
    | error e => simp [hexpected] at h
    | ok u =>
        cases hmanifest : manifest.identity.validate with
        | error e => simp [hexpected, hmanifest] at h
        | ok v =>
            simp only [hexpected, hmanifest, ok_bind, ite_eq_right_iff, List.cons_ne_nil,
              imp_false, not_not] at h
            exact ⟨hexpected, h⟩
  · intro h
    have hvalid : identity.validate = .ok () := h.1
    simp [h.2, hvalid]

theorem orderDiagnostics_eq_nil {entries : List ManifestEntry}
    (h : CheckpointManifestCodec.IsSorted entries) : orderDiagnostics entries = [] := by
  induction entries with
  | nil => rfl
  | cons left rest ih =>
      cases rest with
      | nil => rfl
      | cons right rest =>
          obtain ⟨hleft, hrest⟩ := List.pairwise_cons.mp h
          rw [orderDiagnostics, if_neg (hleft right List.mem_cons_self).not_ge, ih hrest]

theorem isSorted_of_tiles {entries : List ManifestEntry} {a b : UInt64}
    (h : Tiles a (entries.map rangeOf) b) : CheckpointManifestCodec.IsSorted entries := by
  have hpairwise := List.pairwise_map.mp h.pairwise_le
  refine hpairwise.imp_of_mem fun hleft _ hle => BlockLocation.lt_iff.mpr (Or.inl ?_)
  exact (h.bounds_of_mem (List.mem_map_of_mem hleft)).2.1.trans_le hle

/-- A manifest whose valid entries tile the terms is accepted as it is. -/
theorem validate_of_tiles (hidentity : identity.IsValid) (hsame : manifest.identity = identity)
    (hacceptable : ∀ entry ∈ manifest.entries, IsAcceptable identity entry)
    (htiles : Tiles 0 (manifest.entries.map rangeOf) identity.termCount) :
    (validate manifest identity).validation.isAccepted = true ∧
      (validate manifest identity).acceptedEntries = manifest.entries ∧
        (validate manifest identity).missingRanges = [] := by
  have hsorted := isSorted_of_tiles htiles
  have hsort := CheckpointManifestCodec.sortEntries_eq hsorted
  have hnone := identityDiagnostics_eq_nil.mpr ⟨hidentity, hsame⟩
  have hapart := List.pairwise_map.mp htiles.pairwise_le
  have haccepted : (validate manifest identity).acceptedEntries = manifest.entries := by
    rw [acceptedEntries_eq, hsort]
    apply selectEntries_of_forall
    intro i hi
    have hget : (sortEntries manifest.entries)[i]? = some manifest.entries[i] := by
      rw [hsort]
      exact List.getElem?_eq_getElem hi
    refine (finalRejected_eq_false hget).mpr ⟨hnone, hacceptable _ (List.getElem_mem hi), ?_⟩
    intro j other hne hother _ hoverlap
    rw [hsort] at hother
    obtain ⟨hj, rfl⟩ := List.getElem?_eq_some_iff.mp hother
    rcases Nat.lt_or_gt_of_ne hne with hji | hij
    · exact absurd hoverlap.1 (List.pairwise_iff_getElem.mp hapart j i hj hi hji).not_gt
    · exact absurd hoverlap.2 (List.pairwise_iff_getElem.mp hapart i j hi hj hij).not_gt
  have hmissing : (validate manifest identity).missingRanges = [] := by
    change missingRanges identity.termCount 0 (validate manifest identity).acceptedEntries = []
    rw [haccepted, missingRanges_eq, htiles.apart.gaps_eq_nil_iff.mpr htiles]
    rfl
  refine ⟨?_, haccepted, hmissing⟩
  have hoverlaps : (OverlapState.run 0 manifest.entries
      ⟨individuallyRejected ([] : List ValidationDiagnostic).isEmpty identity manifest.entries, none,
        []⟩).diagnostics = [] :=
    OverlapState.diagnostics_run hapart fun _ _ h => by cases h
  have hmissing' : missingRanges identity.termCount 0 (selectEntries manifest.entries
      (OverlapState.run 0 manifest.entries ⟨individuallyRejected
        ([] : List ValidationDiagnostic).isEmpty identity manifest.entries, none, []⟩).rejected) =
          [] := by
    have h := hmissing
    rw [validate, hsort, hnone] at h
    exact h
  rw [validate, ValidationResult.isAccepted_ofDiagnostics, hsort, hnone,
    orderDiagnostics_eq_nil hsorted, hoverlaps, hmissing']
  simp only [List.nil_append, List.append_nil, List.map_nil, List.flatMap_eq_nil_iff]
  exact fun entry hmem => entryDiagnostics_eq_nil.mpr (hacceptable entry hmem)

end CheckpointManifestValidator

end GiveMePi.Checkpoint
