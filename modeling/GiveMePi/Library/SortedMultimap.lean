import GiveMePi.Library.OrderedMap

/-! # Maps with several values for a key

The values of a key are kept in order by a sorting function that need not be stable. -/

namespace GiveMePi.Library

/-- A function that sorts by a key, in any order where keys are the same. -/
structure SortBy {α τ : Type} [LinearOrder τ] (key : α → τ) where
  sort : List α → List α
  perm : ∀ values, (sort values).Perm values
  sorted : ∀ values, (sort values).Pairwise fun left right => key left ≤ key right

namespace SortBy

variable {α τ : Type} [LinearOrder τ] {key : α → τ}

/-- Values with different keys can be sorted in one way only. -/
theorem eq_of_perm {values values' : List α} (hperm : values.Perm values')
    (h : values.Pairwise fun left right => key left ≤ key right)
    (h' : values'.Pairwise fun left right => key left ≤ key right)
    (hdistinct : values.Pairwise fun left right => key left ≠ key right) : values = values' := by
  have hnodup : (values.map key).Nodup := List.pairwise_map.mpr hdistinct
  apply hperm.eq_of_pairwise _ h h'
  intro left right hleft hright hle hge
  exact List.inj_on_of_nodup_map hnodup hleft (hperm.mem_iff.mpr hright) (le_antisymm hle hge)

/-- Insertion is one way to sort. -/
def insertion (key : α → τ) : SortBy key where
  sort values := values.insertionSort fun left right => key left ≤ key right
  perm values := List.perm_insertionSort _ values
  sorted values :=
    have : Std.Total fun left right => key left ≤ key right :=
      ⟨fun left right => le_total (key left) (key right)⟩
    have : IsTrans α fun left right => key left ≤ key right :=
      ⟨fun _ _ _ => le_trans⟩
    List.pairwise_insertionSort _ values

end SortBy

/-! ## The values of a key -/

namespace OrderedMap

variable {κ α τ : Type} [LinearOrder κ] [LinearOrder τ] {key : α → τ}
  {m m' : OrderedMap κ (List α)} {k k' : κ} {a : α}

/-- The values of a key, none if it is not there. -/
def values (m : OrderedMap κ (List α)) (k : κ) : List α :=
  (m.find? k).getD []

/-- The value goes to the others of its key, which are then sorted again. -/
def addSorted (sorting : SortBy key) (m : OrderedMap κ (List α)) (k : κ) (a : α) :
    OrderedMap κ (List α) :=
  (m.erase k).emplace k (sorting.sort (m.values k ++ [a]))

/-- One value after the other. -/
def addAll (sorting : SortBy key) (m : OrderedMap κ (List α)) (added : List (κ × α)) :
    OrderedMap κ (List α) :=
  added.foldl (fun m entry => m.addSorted sorting entry.1 entry.2) m

variable {sorting : SortBy key} {added added' : List (κ × α)}

@[simp] theorem addAll_nil (m : OrderedMap κ (List α)) : m.addAll sorting [] = m := rfl

theorem addAll_append (m : OrderedMap κ (List α)) (added added' : List (κ × α)) :
    m.addAll sorting (added ++ added') = (m.addAll sorting added).addAll sorting added' :=
  List.foldl_append

theorem contains_erase_self : (m.erase k).contains k = false :=
  find?_eq_none_iff.mp find?_erase_self

theorem values_addSorted_self :
    (m.addSorted sorting k a).values k = sorting.sort (m.values k ++ [a]) := by
  rw [values, addSorted, find?_emplace_self contains_erase_self, Option.getD_some]

theorem values_addSorted_of_ne (h : k' ≠ k) :
    (m.addSorted sorting k a).values k' = m.values k' := by
  rw [values, addSorted, find?_emplace_of_ne contains_erase_self h, find?_erase_of_ne h, values]

/-- The values that are added to a key. -/
def valuesOf (k : κ) (added : List (κ × α)) : List α :=
  (added.filter fun entry => entry.1 = k).map Prod.snd

@[simp] theorem valuesOf_cons_self (rest : List (κ × α)) :
    valuesOf k ((k, a) :: rest) = a :: valuesOf k rest := by
  simp [valuesOf]

theorem valuesOf_sublist (k : κ) (added : List (κ × α)) :
    (valuesOf k added).Sublist (added.map Prod.snd) :=
  List.filter_sublist.map Prod.snd

theorem valuesOf_cons_of_ne {rest : List (κ × α)} (h : k' ≠ k) :
    valuesOf k ((k', a) :: rest) = valuesOf k rest := by
  simp [valuesOf, h]

/-- The values of a key are those it had and those added to it. -/
theorem values_addAll_perm (sorting : SortBy key) (m : OrderedMap κ (List α))
    (added : List (κ × α)) (k : κ) :
    ((m.addAll sorting added).values k).Perm (m.values k ++ valuesOf k added) := by
  induction added generalizing m with
  | nil => simp [addAll, valuesOf]
  | cons entry rest ih =>
      rcases entry with ⟨k', a⟩
      have hrest := ih (m.addSorted sorting k' a)
      by_cases h : k' = k
      · subst h
        rw [valuesOf_cons_self, List.append_cons]
        rw [values_addSorted_self] at hrest
        exact hrest.trans ((sorting.perm _).append_right _)
      · rw [valuesOf_cons_of_ne h]
        rw [values_addSorted_of_ne (Ne.symm h)] at hrest
        exact hrest

/-- The values of each key are in order. -/
def IsSorted (key : α → τ) (m : OrderedMap κ (List α)) : Prop :=
  ∀ k, (m.values k).Pairwise fun left right => key left ≤ key right

/-- No key is there without a value. -/
def IsInhabited (m : OrderedMap κ (List α)) : Prop :=
  ∀ entry ∈ m.entries, entry.2 ≠ []

theorem IsSorted.addSorted (h : IsSorted key m) : IsSorted key (m.addSorted sorting k a) := by
  intro k'
  by_cases hkey : k' = k
  · rw [hkey, values_addSorted_self]
    exact sorting.sorted _
  · rw [values_addSorted_of_ne hkey]
    exact h k'

theorem IsInhabited.addSorted (h : IsInhabited m) : IsInhabited (m.addSorted sorting k a) := by
  intro entry hentry
  rcases (mem_emplace contains_erase_self).mp hentry with rfl | hentry
  · intro hnil
    change sorting.sort (m.values k ++ [a]) = [] at hnil
    have hlength := (sorting.perm (m.values k ++ [a])).length_eq
    rw [hnil] at hlength
    simp at hlength
  · exact h entry (mem_erase.mp hentry).1

theorem IsSorted.addAll (h : IsSorted key m) : IsSorted key (m.addAll sorting added) := by
  induction added generalizing m with
  | nil => exact h
  | cons entry rest ih => exact ih h.addSorted

theorem IsInhabited.addAll (h : IsInhabited m) : IsInhabited (m.addAll sorting added) := by
  induction added generalizing m with
  | nil => exact h
  | cons entry rest ih => exact ih h.addSorted

theorem isSorted_empty : IsSorted key (∅ : OrderedMap κ (List α)) :=
  fun _ => List.Pairwise.nil

theorem isInhabited_empty : IsInhabited (∅ : OrderedMap κ (List α)) :=
  fun _ h => absurd h List.not_mem_nil

theorem mem_entries_iff_values {values : List α} (h : IsInhabited m) :
    (k, values) ∈ m.entries ↔ m.values k = values ∧ values ≠ [] := by
  rw [← find?_eq_some_iff]
  constructor
  · intro hfound
    exact ⟨by rw [OrderedMap.values, hfound, Option.getD_some],
      h _ (find?_eq_some_iff.mp hfound)⟩
  · rintro ⟨rfl, hne⟩
    cases hfound : m.find? k with
    | none =>
        rw [OrderedMap.values, hfound] at hne
        exact absurd rfl hne
    | some values => rw [OrderedMap.values, hfound, Option.getD_some]

theorem values_of_mem {entry : κ × List α} (h : entry ∈ m.entries) :
    m.values entry.1 = entry.2 := by
  rw [values, find?_eq_some_iff.mpr h, Option.getD_some]

/-- The values of all keys are all there is to such a map. -/
theorem eq_of_values (h : IsInhabited m) (h' : IsInhabited m')
    (hvalues : ∀ k, m.values k = m'.values k) : m = m' := by
  apply eq_of_mem_iff
  rintro ⟨k, values⟩
  rw [mem_entries_iff_values h, mem_entries_iff_values h', hvalues]

/-! ## Groups of values -/

/-- The values of some groups, each with the key of its group. -/
def ungroup (groups : List (κ × List α)) : List (κ × α) :=
  groups.flatMap fun group => group.2.map (Prod.mk group.1)

theorem valuesOf_append (k : κ) (added added' : List (κ × α)) :
    valuesOf k (added ++ added') = valuesOf k added ++ valuesOf k added' := by
  simp [valuesOf]

@[simp] theorem valuesOf_map_self (k : κ) (values : List α) :
    valuesOf k (values.map (Prod.mk k)) = values := by
  induction values with
  | nil => rfl
  | cons a rest ih => rw [List.map_cons, valuesOf_cons_self, ih]

theorem valuesOf_map_of_ne (h : k' ≠ k) (values : List α) :
    valuesOf k (values.map (Prod.mk k')) = [] := by
  induction values with
  | nil => rfl
  | cons a rest ih => rw [List.map_cons, valuesOf_cons_of_ne h, ih]

theorem valuesOf_ungroup_of_not_mem {groups : List (κ × List α)} (h : k ∉ groups.map Prod.fst) :
    valuesOf k (ungroup groups) = [] := by
  induction groups with
  | nil => rfl
  | cons group rest ih =>
      rw [List.map_cons, List.mem_cons, not_or] at h
      rw [ungroup, List.flatMap_cons, valuesOf_append, valuesOf_map_of_ne (Ne.symm h.1),
        List.nil_append]
      exact ih h.2

/-- The values of a key that has one group. -/
theorem valuesOf_ungroup {groups : List (κ × List α)} (hnodup : (groups.map Prod.fst).Nodup)
    {values : List α} (h : (k, values) ∈ groups) : valuesOf k (ungroup groups) = values := by
  induction groups with
  | nil => exact absurd h List.not_mem_nil
  | cons group rest ih =>
      rw [List.map_cons, List.nodup_cons] at hnodup
      rw [ungroup, List.flatMap_cons, valuesOf_append]
      rcases List.mem_cons.mp h with rfl | hrest
      · have hnone := valuesOf_ungroup_of_not_mem hnodup.1
        rw [valuesOf_map_self]
        rw [ungroup] at hnone
        rw [hnone, List.append_nil]
      · have hne : group.1 ≠ k := by
          rintro rfl
          exact hnodup.1 (List.mem_map.mpr ⟨_, hrest, rfl⟩)
        rw [valuesOf_map_of_ne hne, List.nil_append]
        exact ih hnodup.2 hrest

theorem nodup_keys (m : OrderedMap κ α) : (m.entries.map Prod.fst).Nodup :=
  List.pairwise_map.mpr (m.sorted.imp fun hlt => hlt.ne)

theorem valuesOf_ungroup_entries (m : OrderedMap κ (List α)) (k : κ) :
    valuesOf k (ungroup m.entries) = m.values k := by
  cases hfound : m.find? k with
  | none =>
      rw [values, hfound, Option.getD_none]
      apply valuesOf_ungroup_of_not_mem
      intro hmem
      rcases List.mem_map.mp hmem with ⟨entry, hentry, rfl⟩
      have hsome := find?_eq_some_iff.mpr (show (entry.1, entry.2) ∈ m.entries from hentry)
      rw [hfound] at hsome
      cases hsome
  | some values =>
      rw [OrderedMap.values, hfound, Option.getD_some]
      exact valuesOf_ungroup (nodup_keys m) (find?_eq_some_iff.mp hfound)

/-- A map whose values have different sort keys is put together again from its values. -/
theorem addAll_ungroup_entries (hinhabited : IsInhabited m) (hsorted : IsSorted key m)
    (hdistinct : ∀ k, (m.values k).Pairwise fun left right => key left ≠ key right) :
    (∅ : OrderedMap κ (List α)).addAll sorting (ungroup m.entries) = m := by
  apply eq_of_values isInhabited_empty.addAll hinhabited
  intro k
  have hperm := values_addAll_perm sorting ∅ (ungroup m.entries) k
  rw [valuesOf_ungroup_entries] at hperm
  apply SortBy.eq_of_perm hperm (isSorted_empty.addAll k) (hsorted k)
  exact (hperm.pairwise_iff fun h => h.symm).mpr (hdistinct k)

/-- The keys of a map that is put together from groups are keys of groups. -/
theorem keys_addAll_subset (sorting : SortBy key) (groups : List (κ × List α)) :
    ((∅ : OrderedMap κ (List α)).addAll sorting (ungroup groups)).entries.map Prod.fst ⊆
      groups.map Prod.fst := by
  intro k hk
  rcases List.mem_map.mp hk with ⟨⟨k, values⟩, hentry, rfl⟩
  rcases (mem_entries_iff_values isInhabited_empty.addAll).mp hentry with ⟨rfl, hne⟩
  by_contra hnone
  have hperm := values_addAll_perm sorting ∅ (ungroup groups) k
  rw [valuesOf_ungroup_of_not_mem hnone] at hperm
  exact hne hperm.eq_nil

theorem length_addAll_le (sorting : SortBy key) (groups : List (κ × List α)) :
    ((∅ : OrderedMap κ (List α)).addAll sorting (ungroup groups)).entries.length ≤
      groups.length := by
  have hsubperm := List.subperm_of_subset (nodup_keys _) (keys_addAll_subset sorting groups)
  simpa using hsubperm.length_le

/-- If no two groups are put together, each is the values of its key. -/
theorem values_addAll_of_length {groups : List (κ × List α)}
    (hlength : groups.length ≤
      ((∅ : OrderedMap κ (List α)).addAll sorting (ungroup groups)).entries.length)
    {values : List α} (h : (k, values) ∈ groups) :
    (((∅ : OrderedMap κ (List α)).addAll sorting (ungroup groups)).values k).Perm values := by
  have hsubperm := List.subperm_of_subset (nodup_keys _) (keys_addAll_subset sorting groups)
  have hkeys := hsubperm.perm_of_length_le (by simpa using hlength)
  have hperm := values_addAll_perm sorting ∅ (ungroup groups) k
  rw [valuesOf_ungroup (hkeys.nodup_iff.mp (nodup_keys _)) h] at hperm
  exact hperm

end OrderedMap

end GiveMePi.Library
