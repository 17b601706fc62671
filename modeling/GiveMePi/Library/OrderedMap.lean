import Mathlib.Data.List.Sort
import Mathlib.Order.Lattice
import Mathlib.Tactic.Common

/-! # Maps in the order of their keys

A map is the list of its entries, each key greater than the one before it. Two maps with the same
entries are therefore equal, in whatever order the entries came. -/

namespace GiveMePi.Library

/-- A map: its entries in the strict order of their keys. -/
structure OrderedMap (κ α : Type) [LinearOrder κ] where
  entries : List (κ × α)
  sorted : entries.Pairwise fun left right => left.1 < right.1

namespace OrderedMap

variable {κ α : Type} [LinearOrder κ] {m m' : OrderedMap κ α} {k k' : κ} {a a' : α}

instance [DecidableEq α] : DecidableEq (OrderedMap κ α) := fun m m' =>
  decidable_of_iff (m.entries = m'.entries) (by
    cases m
    cases m'
    simp)

@[ext] theorem ext (h : m.entries = m'.entries) : m = m' := by
  cases m
  cases m'
  simpa using h

def empty : OrderedMap κ α :=
  ⟨[], List.Pairwise.nil⟩

instance : EmptyCollection (OrderedMap κ α) := ⟨empty⟩

@[simp] theorem entries_empty : (∅ : OrderedMap κ α).entries = [] := rfl

def contains (m : OrderedMap κ α) (k : κ) : Bool :=
  m.entries.any fun entry => entry.1 = k

theorem contains_eq_true_iff : m.contains k = true ↔ ∃ a, (k, a) ∈ m.entries := by
  simp [contains]

/-- The value of a key. -/
def find? (m : OrderedMap κ α) (k : κ) : Option α :=
  (m.entries.find? fun entry => entry.1 = k).map Prod.snd

/-- A key has one value. -/
theorem value_unique (h : (k, a) ∈ m.entries) (h' : (k, a') ∈ m.entries) : a = a' := by
  have hnodup : (m.entries.map Prod.fst).Nodup :=
    List.pairwise_map.mpr (m.sorted.imp fun hlt => hlt.ne)
  have hentry := List.inj_on_of_nodup_map hnodup h h' rfl
  cases hentry
  rfl

theorem find?_eq_some_iff : m.find? k = some a ↔ (k, a) ∈ m.entries := by
  rw [find?, Option.map_eq_some_iff]
  constructor
  · intro h
    obtain ⟨⟨key, value⟩, hfound, rfl⟩ := h
    have hkey := List.find?_some hfound
    simp only [decide_eq_true_eq] at hkey
    exact hkey ▸ List.mem_of_find?_eq_some hfound
  · intro h
    cases hfound : m.entries.find? fun entry => entry.1 = k with
    | none =>
        rw [List.find?_eq_none] at hfound
        simpa using hfound _ h
    | some entry =>
        obtain ⟨key, value⟩ := entry
        have hkey := List.find?_some hfound
        simp only [decide_eq_true_eq] at hkey
        subst hkey
        exact ⟨_, rfl, value_unique (List.mem_of_find?_eq_some hfound) h⟩

theorem find?_eq_none_iff : m.find? k = none ↔ m.contains k = false := by
  rw [← Bool.not_eq_true, contains_eq_true_iff, Option.eq_none_iff_forall_ne_some]
  simp only [ne_eq, find?_eq_some_iff, not_exists]

/-- Maps with the same entries are equal. -/
theorem eq_of_mem_iff (h : ∀ entry, entry ∈ m.entries ↔ entry ∈ m'.entries) : m = m' := by
  have hnodup (m : OrderedMap κ α) : m.entries.Nodup :=
    m.sorted.imp fun hlt heq => hlt.ne (congrArg Prod.fst heq)
  have hperm := (List.perm_ext_iff_of_nodup (hnodup m) (hnodup m')).mpr h
  apply ext
  apply hperm.eq_of_pairwise _ m.sorted m'.sorted
  intro left right _ _ hlt hgt
  exact absurd hlt hgt.not_gt

/-! ## Insertion -/

def emplaceEntry (k : κ) (a : α) : List (κ × α) → List (κ × α)
  | [] => [(k, a)]
  | entry :: rest =>
      if k < entry.1 then (k, a) :: entry :: rest
      else if k = entry.1 then entry :: rest
      else entry :: emplaceEntry k a rest

theorem mem_of_mem_emplaceEntry {entry : κ × α} {entries : List (κ × α)}
    (h : entry ∈ emplaceEntry k a entries) : entry = (k, a) ∨ entry ∈ entries := by
  induction entries with
  | nil => exact Or.inl (List.mem_singleton.mp h)
  | cons first rest ih =>
      rw [emplaceEntry] at h
      split_ifs at h with hlt heq
      · exact List.mem_cons.mp h
      · exact Or.inr h
      · cases h with
        | head => exact Or.inr List.mem_cons_self
        | tail _ h => exact (ih h).imp_right (List.mem_cons_of_mem _)

theorem pairwise_emplaceEntry {entries : List (κ × α)}
    (h : entries.Pairwise fun left right => left.1 < right.1) :
    (emplaceEntry k a entries).Pairwise fun left right => left.1 < right.1 := by
  induction entries with
  | nil => exact List.pairwise_singleton _ _
  | cons first rest ih =>
      obtain ⟨hfirst, hrest⟩ := List.pairwise_cons.mp h
      rw [emplaceEntry]
      split_ifs with hlt heq
      · refine List.pairwise_cons.mpr ⟨fun entry hmem => ?_, h⟩
        cases hmem with
        | head => exact hlt
        | tail _ hmem => exact hlt.trans (hfirst entry hmem)
      · exact h
      · refine List.pairwise_cons.mpr ⟨fun entry hmem => ?_, ih hrest⟩
        rcases mem_of_mem_emplaceEntry hmem with rfl | hmem
        · exact lt_of_le_of_ne (not_lt.mp hlt) (Ne.symm heq)
        · exact hfirst entry hmem

theorem mem_emplaceEntry {entry : κ × α} {entries : List (κ × α)}
    (hfresh : ∀ other ∈ entries, k ≠ other.1) :
    entry ∈ emplaceEntry k a entries ↔ entry = (k, a) ∨ entry ∈ entries := by
  refine ⟨mem_of_mem_emplaceEntry, ?_⟩
  induction entries with
  | nil => simp [emplaceEntry]
  | cons first rest ih =>
      have hrest := ih fun other hmem => hfresh other (List.mem_cons_of_mem _ hmem)
      intro h
      rw [emplaceEntry]
      split_ifs with hlt heq
      · exact List.mem_cons.mpr h
      · exact absurd heq (hfresh first List.mem_cons_self)
      · rcases h with h | h
        · exact List.mem_cons_of_mem _ (hrest (Or.inl h))
        · cases h with
          | head => exact List.mem_cons_self
          | tail _ h => exact List.mem_cons_of_mem _ (hrest (Or.inr h))

theorem emplaceEntry_of_gt {entries : List (κ × α)} (h : ∀ entry ∈ entries, entry.1 < k) :
    emplaceEntry k a entries = entries ++ [(k, a)] := by
  induction entries with
  | nil => rfl
  | cons first rest ih =>
      have hfirst := h first List.mem_cons_self
      rw [emplaceEntry, if_neg hfirst.not_gt, if_neg hfirst.ne',
        ih fun entry hmem => h entry (List.mem_cons_of_mem _ hmem), List.cons_append]

theorem length_emplaceEntry_le (entries : List (κ × α)) :
    (emplaceEntry k a entries).length ≤ entries.length + 1 := by
  induction entries with
  | nil => simp [emplaceEntry]
  | cons entry rest ih =>
      rw [emplaceEntry]
      split
      · simp
      · split
        · simp
        · simpa using ih

/-- A value is added under a key that the map does not hold; a key it holds keeps its value. -/
def emplace (m : OrderedMap κ α) (k : κ) (a : α) : OrderedMap κ α :=
  ⟨emplaceEntry k a m.entries, pairwise_emplaceEntry m.sorted⟩

theorem mem_emplace {entry : κ × α} (hfresh : m.contains k = false) :
    entry ∈ (m.emplace k a).entries ↔ entry = (k, a) ∨ entry ∈ m.entries := by
  refine mem_emplaceEntry fun other hmem heq => ?_
  have hcontains : m.contains k = true := contains_eq_true_iff.mpr ⟨other.2, heq ▸ hmem⟩
  exact absurd hcontains (Bool.eq_false_iff.mp hfresh)

theorem find?_emplace_self (hfresh : m.contains k = false) : (m.emplace k a).find? k = some a :=
  find?_eq_some_iff.mpr ((mem_emplace hfresh).mpr (Or.inl rfl))

theorem find?_emplace_of_ne {k' : κ} (hfresh : m.contains k = false) (h : k' ≠ k) :
    (m.emplace k a).find? k' = m.find? k' := by
  rw [Option.ext_iff]
  intro other
  rw [find?_eq_some_iff, find?_eq_some_iff, mem_emplace hfresh, Prod.mk.injEq]
  simp [h]

/-- A key greater than all others goes to the end. -/
theorem entries_emplace_of_gt (h : ∀ entry ∈ m.entries, entry.1 < k) :
    (m.emplace k a).entries = m.entries ++ [(k, a)] :=
  emplaceEntry_of_gt h

/-! ## Removal -/

def erase (m : OrderedMap κ α) (k : κ) : OrderedMap κ α where
  entries := m.entries.filter fun entry => entry.1 ≠ k
  sorted := m.sorted.filter _

theorem mem_erase {entry : κ × α} :
    entry ∈ (m.erase k).entries ↔ entry ∈ m.entries ∧ entry.1 ≠ k := by
  simp [erase]

theorem find?_erase_self : (m.erase k).find? k = none := by
  rw [find?_eq_none_iff, ← Bool.not_eq_true, contains_eq_true_iff]
  intro h
  obtain ⟨a, hmem⟩ := h
  exact (mem_erase.mp hmem).2 rfl

theorem find?_erase_of_ne {k' : κ} (h : k' ≠ k) : (m.erase k).find? k' = m.find? k' := by
  rw [Option.ext_iff]
  intro other
  rw [find?_eq_some_iff, find?_eq_some_iff, mem_erase]
  simp [h]

end OrderedMap

end GiveMePi.Library
