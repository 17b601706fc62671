import Mathlib.Data.List.Basic
import Mathlib.Logic.Function.Basic
import Mathlib.Tactic.Common

/-! # Files behind a cache

A file system answers from a cache in front of its disk. The content of a file is on the disk once
the file was synced, the changes of names once their directory was. A crash keeps the names of the
disk with any part of the changes that wait, and of a file that was not synced it keeps anything. -/

namespace GiveMePi.Library

universe u v

/-- A file: its content in the cache, and whether the disk has it. -/
structure CachedFile (β : Type v) where
  content : List β
  synced : Bool

/-- Names that change together: each with the file it stands for from then on. -/
abbrev NameChange (π : Type u) := List (π × Option ℕ)

namespace NameChange

variable {π : Type u} [DecidableEq π]

def apply (names : π → Option ℕ) (change : NameChange π) : π → Option ℕ :=
  change.foldl (fun names entry => Function.update names entry.1 entry.2) names

/-- Whether a change concerns a name. -/
def Touches (change : NameChange π) (name : π) : Prop :=
  ∃ entry ∈ change, entry.1 = name

@[simp] theorem apply_nil (names : π → Option ℕ) : apply names [] = names := rfl

@[simp] theorem apply_cons (names : π → Option ℕ) (entry : π × Option ℕ) (change : NameChange π) :
    apply names (entry :: change) = apply (Function.update names entry.1 entry.2) change := rfl

theorem apply_of_not_touches {change : NameChange π} {name : π} {names : π → Option ℕ}
    (h : ¬ change.Touches name) : apply names change name = names name := by
  induction change generalizing names with
  | nil => rfl
  | cons entry change ih =>
      have hhead : name ≠ entry.1 := fun heq => h ⟨entry, by simp, heq.symm⟩
      have htail : ¬ Touches change name := fun ⟨other, hmem, heq⟩ => h ⟨other, by simp [hmem], heq⟩
      rw [apply_cons, ih htail, Function.update_of_ne hhead]

/-- Changes that do not concern a name leave it. -/
theorem foldl_apply_of_not_touches {changes : List (NameChange π)} {name : π}
    {names : π → Option ℕ} (h : ∀ change ∈ changes, ¬ change.Touches name) :
    changes.foldl apply names name = names name := by
  induction changes generalizing names with
  | nil => rfl
  | cons change changes ih =>
      rw [List.foldl_cons, ih fun other hmem => h other (by simp [hmem])]
      exact apply_of_not_touches (h change (by simp))

theorem apply_eq_some {change : NameChange π} {name : π} {names : π → Option ℕ} {file : ℕ}
    (h : apply names change name = some file) :
    names name = some file ∨ (name, some file) ∈ change := by
  induction change generalizing names with
  | nil => exact Or.inl h
  | cons entry change ih =>
      rw [apply_cons] at h
      rcases ih h with h | h
      · by_cases heq : name = entry.1
        · subst heq
          rw [Function.update_self] at h
          simp [← h]
        · rw [Function.update_of_ne heq] at h
          exact Or.inl h
      · simp [h]

/-- A name stands for a file of the names before or for one of the changes. -/
theorem foldl_apply_eq_some {changes : List (NameChange π)} {name : π} {names : π → Option ℕ}
    {file : ℕ} (h : changes.foldl apply names name = some file) :
    names name = some file ∨ ∃ change ∈ changes, (name, some file) ∈ change := by
  induction changes generalizing names with
  | nil => exact Or.inl h
  | cons change changes ih =>
      rcases ih h with h | ⟨other, hmem, hentry⟩
      · rcases apply_eq_some h with h | h
        · exact Or.inl h
        · exact Or.inr ⟨change, by simp, h⟩
      · exact Or.inr ⟨other, by simp [hmem], hentry⟩

end NameChange

/-- Files by number, with the names the cache has for them, those the disk has and the changes that
wait for the disk. Numbers from `next` on are free. -/
structure CachedFiles (π : Type u) (β : Type v) where
  names : π → Option ℕ
  durable : π → Option ℕ
  pending : List (NameChange π)
  file : ℕ → CachedFile β
  next : ℕ
  names_lt : ∀ name number, names name = some number → number < next
  durable_lt : ∀ name number, durable name = some number → number < next
  pending_lt : ∀ change ∈ pending, ∀ name number, (name, some number) ∈ change → number < next

namespace CachedFiles

open NameChange

variable {π : Type u} {β : Type v} (files : CachedFiles π β)

/-- No files. -/
def empty : CachedFiles π β where
  names _ := none
  durable _ := none
  pending := []
  file _ := ⟨[], true⟩
  next := 0
  names_lt _ _ h := nomatch h
  durable_lt _ _ h := nomatch h
  pending_lt _ h := nomatch h

/-- What a reader finds under a name. -/
def read (name : π) : Option (List β) :=
  (files.names name).map fun number => (files.file number).content

def setFile (number : ℕ) (file : CachedFile β) : CachedFiles π β :=
  { files with file := Function.update files.file number file }

def append (number : ℕ) (bytes : List β) : CachedFiles π β :=
  files.setFile number ⟨(files.file number).content ++ bytes, false⟩

/-- `fsync` of a file -/
def sync (number : ℕ) : CachedFiles π β :=
  files.setFile number ⟨(files.file number).content, true⟩

@[simp] theorem names_setFile (number : ℕ) (file : CachedFile β) :
    (files.setFile number file).names = files.names := rfl

@[simp] theorem file_setFile (number : ℕ) (file : CachedFile β) :
    (files.setFile number file).file = Function.update files.file number file := rfl

@[simp] theorem setFile_setFile (number : ℕ) (file file' : CachedFile β) :
    (files.setFile number file).setFile number file' = files.setFile number file' := by
  simp [setFile]

theorem setFile_self (number : ℕ) : files.setFile number (files.file number) = files := by
  simp [setFile]

theorem ne_next {name : π} {number : ℕ} (h : files.names name = some number) :
    number ≠ files.next :=
  Nat.ne_of_lt (files.names_lt name number h)

/-- Later files: changes of names were added, and the files that existed are as they were. -/
structure Extends (changes : List (NameChange π)) (later : CachedFiles π β) : Prop where
  durable : later.durable = files.durable
  pending : later.pending = files.pending ++ changes
  file : ∀ number < files.next, later.file number = files.file number
  next : files.next ≤ later.next

namespace Extends

variable {files} {changes : List (NameChange π)} {later : CachedFiles π β}

theorem refl (files : CachedFiles π β) : files.Extends [] files where
  durable := rfl
  pending := by simp
  file _ _ := rfl
  next := Nat.le_refl _

theorem setFile (h : files.Extends changes later) {number : ℕ} (hnumber : files.next ≤ number)
    (file : CachedFile β) : files.Extends changes (later.setFile number file) where
  durable := h.durable
  pending := h.pending
  file other hother := by
    rw [file_setFile, Function.update_of_ne (by omega)]
    exact h.file other hother
  next := h.next

end Extends

section Names

variable [DecidableEq π]

/-- What a crash may leave: the disk's names with some of the changes that wait, in their order, the
synced files with their content and others with any. -/
def Image (image : π → Option (List β)) : Prop :=
  ∃ kept content, List.Sublist kept files.pending ∧
    (∀ number, (files.file number).synced → content number = (files.file number).content) ∧
    image = fun name => (kept.foldl apply files.durable name).map content

/-! ## Operations -/

/-- A change of names, in the cache; the files it names have numbers in use. -/
def change (change : NameChange π) (next : ℕ) (hnext : files.next ≤ next)
    (hchange : ∀ name number, (name, some number) ∈ change → number < next) : CachedFiles π β where
  names := apply files.names change
  durable := files.durable
  pending := files.pending ++ [change]
  file := files.file
  next := next
  names_lt := by
    intro name number h
    rcases apply_eq_some h with h | h
    · exact Nat.lt_of_lt_of_le (files.names_lt name number h) hnext
    · exact hchange name number h
  durable_lt name number h := Nat.lt_of_lt_of_le (files.durable_lt name number h) hnext
  pending_lt := by
    intro other hmem name number hentry
    rcases List.mem_append.mp hmem with hmem | hmem
    · exact Nat.lt_of_lt_of_le (files.pending_lt other hmem name number hentry) hnext
    · rw [List.mem_singleton] at hmem
      exact hchange name number (hmem ▸ hentry)

/-- A new empty file; its number is the next free one. -/
def create (name : π) : CachedFiles π β :=
  (files.change [(name, some files.next)] (files.next + 1) (Nat.le_succ _) (by
    intro other number h
    simp only [List.mem_singleton, Prod.mk.injEq, Option.some.injEq] at h
    omega)).setFile files.next ⟨[], false⟩

def unlink (name : π) : CachedFiles π β :=
  files.change [(name, none)] files.next (Nat.le_refl _) (by simp)

/-- `rename`: the destination stands for the file of the source, which is gone, in one change. -/
def rename (source destination : π) : CachedFiles π β :=
  files.change [(source, none), (destination, files.names source)] files.next (Nat.le_refl _) (by
    intro name number h
    simp only [List.mem_cons, Prod.mk.injEq, reduceCtorEq, and_false, List.not_mem_nil, or_false,
      false_or] at h
    exact files.names_lt source number h.2.symm)

/-- `fsync` of the directory with the names in question: the changes that concern one of them reach
the disk. -/
def syncNames (directory : π → Bool) : CachedFiles π β where
  names := files.names
  durable :=
    (files.pending.filter fun change => change.any fun entry => directory entry.1).foldl apply
      files.durable
  pending := files.pending.filter fun change => !change.any fun entry => directory entry.1
  file := files.file
  next := files.next
  names_lt := files.names_lt
  durable_lt := by
    intro name number h
    rcases foldl_apply_eq_some h with h | ⟨change, hmem, hentry⟩
    · exact files.durable_lt name number h
    · exact files.pending_lt change (List.mem_of_mem_filter hmem) name number hentry
  pending_lt change hmem := files.pending_lt change (List.mem_of_mem_filter hmem)

@[simp] theorem names_create (name : π) :
    (files.create name).names = Function.update files.names name (some files.next) := rfl

@[simp] theorem file_create (name : π) :
    (files.create name).file = Function.update files.file files.next ⟨[], false⟩ := rfl

@[simp] theorem names_unlink (name : π) :
    (files.unlink name).names = Function.update files.names name none := rfl

@[simp] theorem file_unlink (name : π) : (files.unlink name).file = files.file := rfl

@[simp] theorem names_rename (source destination : π) :
    (files.rename source destination).names =
      Function.update (Function.update files.names source none) destination (files.names source) :=
  rfl

@[simp] theorem file_rename (source destination : π) :
    (files.rename source destination).file = files.file := rfl

@[simp] theorem read_syncNames (directory : π → Bool) (name : π) :
    (files.syncNames directory).read name = files.read name := rfl

/-! ## What a crash leaves -/

namespace Extends

variable {files} {changes : List (NameChange π)} {later : CachedFiles π β}

theorem create (h : files.Extends changes later) (name : π) :
    files.Extends (changes ++ [[(name, some later.next)]]) (later.create name) where
  durable := h.durable
  pending := by
    change later.pending ++ _ = _
    rw [h.pending, List.append_assoc]
  file other hother := by
    have := h.next
    rw [file_create, Function.update_of_ne (by omega)]
    exact h.file other hother
  next := Nat.le_succ_of_le h.next

theorem unlink (h : files.Extends changes later) (name : π) :
    files.Extends (changes ++ [[(name, none)]]) (later.unlink name) where
  durable := h.durable
  pending := by
    change later.pending ++ _ = _
    rw [h.pending, List.append_assoc]
  file := h.file
  next := h.next

theorem rename (h : files.Extends changes later) (source destination : π) :
    files.Extends (changes ++ [[(source, none), (destination, later.names source)]])
      (later.rename source destination) where
  durable := h.durable
  pending := by
    change later.pending ++ _ = _
    rw [h.pending, List.append_assoc]
  file := h.file
  next := h.next

/-- After a crash, a name that none of the kept changes concerns is as a crash might have left it
before these changes; the others follow from the kept ones. -/
theorem exists_image (h : files.Extends changes later) {image : π → Option (List β)}
    (himage : later.Image image) :
    ∃ before names content kept, files.Image before ∧ List.Sublist kept changes ∧
      (∀ name, (∀ change ∈ kept, ¬ change.Touches name) → image name = before name) ∧
      (∀ number, (later.file number).synced → content number = (later.file number).content) ∧
      image = fun name => (kept.foldl apply names name).map content := by
  rcases himage with ⟨kept, content, hkept, hcontent, rfl⟩
  rw [h.pending] at hkept
  rcases List.sublist_append_iff.mp hkept with ⟨old, new, rfl, hold, hnew⟩
  -- a number not in use before stands for whatever the files had there
  let content' number := if number < files.next then content number
    else (files.file number).content
  refine ⟨fun name => (old.foldl apply files.durable name).map content',
    old.foldl apply files.durable, content, new, ?_, hnew, ?_, hcontent, ?_⟩
  · refine ⟨old, content', hold, ?_, rfl⟩
    intro number hsynced
    by_cases hlt : number < files.next
    · rw [← h.file number hlt] at hsynced ⊢
      simp only [content', if_pos hlt]
      exact hcontent number hsynced
    · simp only [content', if_neg hlt]
  · intro name hname
    simp only [List.foldl_append, foldl_apply_of_not_touches hname, h.durable]
    refine Option.map_congr ?_
    intro number hnumber
    have hlt : number < files.next := by
      rcases foldl_apply_eq_some hnumber with hnumber | ⟨change, hmem, hentry⟩
      · exact files.durable_lt name number hnumber
      · exact files.pending_lt change (hold.subset hmem) name number hentry
    simp only [content', if_pos hlt]
  · simp only [List.foldl_append, h.durable]

/-- Changes that do not concern a name leave it to a crash as it was. -/
theorem image_eq (h : files.Extends changes later) {name : π}
    (hname : ∀ change ∈ changes, ¬ change.Touches name) {image : π → Option (List β)}
    (himage : later.Image image) : ∃ before, files.Image before ∧ image name = before name := by
  rcases h.exists_image himage with ⟨before, _, _, kept, hbefore, hkept, hsame, _, _⟩
  exact ⟨before, hbefore, hsame name fun change hmem => hname change (hkept.subset hmem)⟩

/-- When only the last change concerns a name, a crash leaves the name as it was before or as that
change says. -/
theorem image_eq_or {last : NameChange π} {name : π} {number : ℕ}
    (h : files.Extends (changes ++ [last]) later)
    (hname : ∀ change ∈ changes, ¬ change.Touches name)
    (hlast : ∀ names, apply names last name = some number)
    (hsynced : (later.file number).synced) {image : π → Option (List β)}
    (himage : later.Image image) :
    (∃ before, files.Image before ∧ image name = before name) ∨
      image name = some (later.file number).content := by
  rcases h.exists_image himage with ⟨before, names, content, kept, hbefore, hkept, hsame,
    hcontent, rfl⟩
  rcases List.sublist_append_iff.mp hkept with ⟨first, rest, rfl, hfirst, hrest⟩
  have huntouched : ∀ change ∈ first, ¬ change.Touches name :=
    fun change hmem => hname change (hfirst.subset hmem)
  rcases List.sublist_singleton.mp hrest with rfl | rfl
  · exact Or.inl ⟨before, hbefore, hsame name (by simpa using huntouched)⟩
  · right
    simp [hlast, hcontent number hsynced]

end Extends

/-- Behind the last change of a synced directory, a crash leaves what that change says. -/
theorem image_syncNames {directory : π → Bool} {name : π} {number : ℕ}
    {changes : List (NameChange π)} {last : NameChange π}
    (hpending : files.pending = changes ++ [last]) (hname : directory name)
    (hlast : ∀ names, apply names last name = some number) (htouches : last.Touches name)
    (hsynced : (files.file number).synced) {image : π → Option (List β)}
    (himage : (files.syncNames directory).Image image) :
    image name = some (files.file number).content := by
  have hconcerns : ∀ change : NameChange π, change.Touches name →
      (change.any fun entry => directory entry.1) = true := by
    intro change ⟨entry, hmem, heq⟩
    exact List.any_eq_true.mpr ⟨entry, hmem, heq ▸ hname⟩
  rcases himage with ⟨kept, content, hkept, hcontent, rfl⟩
  have huntouched : ∀ change ∈ kept, ¬ change.Touches name := by
    intro change hmem htouch
    have := (List.mem_filter.mp (hkept.subset hmem)).2
    simp [hconcerns change htouch] at this
  have hdurable : (files.syncNames directory).durable name = some number := by
    change (files.pending.filter _).foldl apply files.durable name = _
    rw [hpending, List.filter_append, List.foldl_append]
    simp [hconcerns last htouches, hlast]
  simp only [foldl_apply_of_not_touches huntouched, hdurable, Option.map_some]
  exact congrArg some (hcontent number hsynced)

end Names

end CachedFiles

end GiveMePi.Library
