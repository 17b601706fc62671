import GiveMePi.Checkpoint.CheckpointFilenames
import GiveMePi.Storage.BinaryNodeChunkAdapter
import GiveMePi.Storage.IndexFormat
import GiveMePi.Storage.StorageManager

/-! # The places of chunks and of the index

Chunks, the index and their temporary files have names of their own, a command changes only the
names it is given, and what a store writes is what a load decodes. -/

namespace GiveMePi

/-! ## Commands -/

namespace FileCommand

/-- A command that changes no file but the given one. -/
def IsOn (path : Path) : FileCommand → Prop
  | create other | append other _ => other = path
  | makeDirectories _ | sync _ | close _ | syncDirectory _ => True
  | rename _ _ | remove _ => False

theorem IsOn.lookup_apply {path other : Path} {command : FileCommand} (h : command.IsOn path)
    (hne : other ≠ path) (files : FileSystem) :
    (command.apply files).lookup other = files.lookup other := by
  cases command with
  | create path' | append path' bytes =>
      cases h
      exact AList.lookup_insert_ne hne
  | rename source destination => cases h
  | remove path' => cases h
  | _ => rfl

theorem IsOn.lookup_perform {path other : Path} {command : FileCommand} (h : command.IsOn path)
    (hne : other ≠ path) (outcome : Outcome) (files : FileSystem) :
    (command.perform outcome files).lookup other = files.lookup other := by
  cases outcome with
  | failedBefore => rfl
  | done | failedAfter => exact h.lookup_apply hne files

/-- What a script leaves in its file depends on that file only. -/
theorem lookup_applyAll_congr {path : Path} {script : List FileCommand}
    (h : ∀ command ∈ script, IsOn path command) {files files' : FileSystem}
    (hsame : files'.lookup path = files.lookup path) :
    (applyAll script files').lookup path = (applyAll script files).lookup path := by
  induction script generalizing files files' with
  | nil => exact hsame
  | cons command script ih =>
      have hcommand := h command List.mem_cons_self
      refine ih (fun other hother => h other (List.mem_cons_of_mem _ hother)) ?_
      cases command with
      | create other =>
          cases hcommand
          simp only [apply, AList.lookup_insert]
      | append other bytes =>
          cases hcommand
          simp only [apply, AList.lookup_insert, hsame]
      | rename source destination => cases hcommand
      | remove other => cases hcommand
      | _ => exact hsame

theorem isOn_writeScript {directory : Bytes} {temp : Path} {pieces : List Bytes}
    {last : List FileCommand} (hlast : ∀ command ∈ last, IsOn temp command) :
    ∀ command ∈ writeScript directory temp pieces last, IsOn temp command := by
  intro command h
  simp only [writeScript, List.mem_append, List.mem_cons, List.not_mem_nil, or_false,
    List.mem_map] at h
  rcases h with (hfirst | hpiece) | hend
  · rcases hfirst with rfl | rfl
    · trivial
    · rfl
  · obtain ⟨piece, _, rfl⟩ := hpiece
    rfl
  · exact hlast command hend

theorem lookup_applyAll_append {temp : Path} (pieces : List Bytes) {files : FileSystem}
    {written : Bytes} (h : files.lookup temp = some written) :
    (applyAll (pieces.map (append temp)) files).lookup temp = some (written ++ pieces.flatten) := by
  induction pieces generalizing files written with
  | nil => simpa [applyAll] using h
  | cons piece pieces ih =>
      have hnext : ((append temp piece).apply files).lookup temp = some (written ++ piece) := by
        simp only [apply, AList.lookup_insert, h, Option.getD_some]
      have := ih hnext
      simpa [applyAll, List.append_assoc] using this

theorem applyAll_append (first second : List FileCommand) (files : FileSystem) :
    applyAll (first ++ second) files = applyAll second (applyAll first files) := by
  simp [applyAll]

/-- Commands that show in no file. -/
theorem applyAll_eq_self {script : List FileCommand} {files : FileSystem}
    (h : ∀ command ∈ script, ∀ files, command.apply files = files) :
    applyAll script files = files := by
  induction script with
  | nil => rfl
  | cons command script ih =>
      have hcommand := h command List.mem_cons_self files
      have hrest := ih fun other hother => h other (List.mem_cons_of_mem _ hother)
      simpa [applyAll, hcommand] using hrest

/-- A write script leaves all bytes in its file. -/
theorem lookup_applyAll_writeScript {directory : Bytes} {temp : Path} {pieces : List Bytes}
    {last : List FileCommand} (hlast : ∀ command ∈ last, ∀ files, command.apply files = files)
    (files : FileSystem) :
    (applyAll (writeScript directory temp pieces last) files).lookup temp =
      some pieces.flatten := by
  have hcreated : (applyAll [makeDirectories directory, create temp] files).lookup temp =
      some [] := by
    simp [applyAll, apply, AList.lookup_insert]
  rw [writeScript, applyAll_append, applyAll_append, applyAll_eq_self hlast]
  simpa using lookup_applyAll_append pieces hcreated

/-- A rename installs the content of its source and touches no third name. -/
theorem lookup_rename {source destination : Path} {files : FileSystem} {content : Bytes}
    (h : files.lookup source = some content) :
    ((rename source destination).apply files).lookup destination = some content := by
  simp only [apply, h, AList.lookup_insert]

theorem lookup_rename_ne {source destination other : Path} (hsource : other ≠ source)
    (hdestination : other ≠ destination) (files : FileSystem) :
    ((rename source destination).apply files).lookup other = files.lookup other := by
  simp only [apply]
  split
  · rfl
  · rw [AList.lookup_insert_ne hdestination, AList.lookup_erase_ne hsource]

theorem lookup_perform_remove_ne {path other : Path} (h : other ≠ path) (outcome : Outcome)
    (files : FileSystem) : ((remove path).perform outcome files).lookup other = files.lookup other := by
  cases outcome with
  | failedBefore => rfl
  | done | failedAfter => exact AList.lookup_erase_ne h

theorem lookup_perform_rename_ne {source destination other : Path} (hsource : other ≠ source)
    (hdestination : other ≠ destination) (outcome : Outcome) (files : FileSystem) :
    ((rename source destination).perform outcome files).lookup other = files.lookup other := by
  cases outcome with
  | failedBefore => rfl
  | done | failedAfter => exact lookup_rename_ne hsource hdestination files

end FileCommand

namespace Storage

open Checkpoint.CheckpointStore (identityFilename identityFilename_append_inj location_append_inj)
open Checkpoint (AtomicFileCommit.tempPath)

variable (policy : StoragePolicy) (processId : ℕ)

/-! ## Names -/

/-- A chunk file is named after one identity only. -/
theorem ChunkIdentity.chunkFilename_injective : Function.Injective ChunkIdentity.chunkFilename := by
  have hextension : EndsNumber (ascii ".chunk") := fun _ h => by cases h; decide
  intro left right h
  simp only [ChunkIdentity.chunkFilename, List.append_assoc] at h
  obtain ⟨hidentity, h⟩ := identityFilename_append_inj (endsNumber_append rfl (by decide))
    (endsNumber_append rfl (by decide)) h
  exact congrArg₂ ChunkIdentity.mk hidentity (location_append_inj hextension hextension h)

/-- The files that a manager works on: those of chunks and of the index, and their temporary files. -/
inductive Place where
  | chunk (identity : ChunkIdentity)
  | temporary (identity : ChunkIdentity)
  | index
  | indexTemp (sequence : ℕ)
deriving DecidableEq

def Place.path : Place → Path
  | chunk identity => ChunkStore.chunkPath policy identity.chunkFilename
  | temporary identity => ChunkStore.temporaryFile policy processId identity.chunkFilename
  | index => ChunkIndex.indexPath policy
  | indexTemp sequence => ChunkIndex.indexTemp policy processId sequence

theorem directory_ne : policy.directory ≠ ChunkStore.temporaryDirectory policy := by
  intro h
  have := congrArg List.length h
  simp [ChunkStore.temporaryDirectory, ascii] at this

theorem chunkFilename_ne_index (identity : ChunkIdentity) (rest : Bytes) :
    identity.chunkFilename ≠ ascii "chunk-index-v1.bin" ++ rest := by
  intro h
  have hhead := congrArg (fun name => (name.drop 6).head?) h
  simp [ChunkIdentity.chunkFilename, identityFilename, ascii] at hhead

theorem indexTemp_injective {sequence sequence' : ℕ}
    (h : ChunkIndex.indexTemp policy processId sequence =
      ChunkIndex.indexTemp policy processId sequence') : sequence = sequence' := by
  simp only [ChunkIndex.indexTemp, AtomicFileCommit.tempPath, Path.mk.injEq, true_and] at h
  exact decimal_injective (List.append_cancel_left h)

/-- The directory of a place, and its name within. -/
theorem Place.directory_path (place : Place) :
    (place.path policy processId).directory =
      match place with
      | temporary _ => ChunkStore.temporaryDirectory policy
      | _ => policy.directory := by
  cases place <;> rfl

theorem Place.filename_path (place : Place) :
    (place.path policy processId).filename =
      match place with
      | chunk identity => identity.chunkFilename
      | temporary identity => identity.chunkFilename ++ (ascii ".tmp." ++ decimal processId)
      | index => ascii "chunk-index-v1.bin" ++ []
      | indexTemp sequence => ascii "chunk-index-v1.bin" ++
          (ascii ".tmp." ++ decimal processId ++ ascii "." ++ decimal sequence) := by
  cases place with
  | chunk identity => rfl
  | temporary identity =>
      simp only [path, ChunkStore.temporaryFile, List.append_assoc]
  | index => simp only [path, ChunkIndex.indexPath, List.append_nil]
  | indexTemp sequence =>
      simp only [path, ChunkIndex.indexTemp, ChunkIndex.indexPath, AtomicFileCommit.tempPath,
        List.append_assoc]

/-- The kind of a place shows in its path. -/
theorem Place.path_injective : Function.Injective (Place.path policy processId) := by
  intro left right h
  have hdirectory := congrArg Path.directory h
  have hfilename := congrArg Path.filename h
  rw [directory_path, directory_path] at hdirectory
  rw [filename_path, filename_path] at hfilename
  cases left with
  | chunk identity =>
      cases right with
      | chunk identity' => rw [ChunkIdentity.chunkFilename_injective hfilename]
      | temporary identity' => exact absurd hdirectory (directory_ne policy)
      | index | indexTemp sequence => exact absurd hfilename (chunkFilename_ne_index identity _)
  | temporary identity =>
      cases right with
      | temporary identity' =>
          rw [ChunkIdentity.chunkFilename_injective (List.append_cancel_right hfilename)]
      | chunk identity' | index | indexTemp sequence =>
          exact absurd hdirectory.symm (directory_ne policy)
  | index =>
      cases right with
      | index => rfl
      | chunk identity' => exact absurd hfilename.symm (chunkFilename_ne_index identity' _)
      | temporary identity' => exact absurd hdirectory (directory_ne policy)
      | indexTemp sequence =>
          have := List.append_cancel_left hfilename
          simp [ascii] at this
  | indexTemp sequence =>
      cases right with
      | indexTemp sequence' => rw [indexTemp_injective policy processId h]
      | chunk identity' => exact absurd hfilename.symm (chunkFilename_ne_index identity' _)
      | temporary identity' => exact absurd hdirectory (directory_ne policy)
      | index =>
          have := List.append_cancel_left hfilename
          simp [ascii] at this

end Storage

end GiveMePi
