import GiveMePi.Storage.StoragePolicy
import Mathlib.Data.List.Chain

/-! # Storage policies in JSON

The text of a policy and the fields that are found in a text, each by the first place its name
occurs at. Of a field that is a text, what stands between the next two quotation marks is read: the
first of them ends the name, and the second begins the value. -/

namespace GiveMePi.Storage.FullStoragePolicy

open Library

/-! ## Writing -/

def boolText (value : Bool) : Bytes :=
  if value = true then ascii "true" else ascii "false"

def toJson (policy : FullStoragePolicy) : Bytes :=
  ascii "\x7b\n" ++
  ascii "  \"enabled\": " ++ boolText policy.enabled ++ ascii ",\n" ++
  ascii "  \"directory\": \"" ++ policy.directory ++ ascii "\",\n" ++
  ascii "  \"memory_budget_bytes\": " ++ decimal policy.memoryBudgetBytes.toNat ++ ascii ",\n" ++
  ascii "  \"target_chunk_size_bytes\": " ++ decimal policy.targetChunkSizeBytes.toNat ++
    ascii ",\n" ++
  ascii "  \"compression\": \"" ++ policy.compression.toText ++ ascii "\",\n" ++
  ascii "  \"max_concurrent_io\": " ++ decimal policy.maxConcurrentIo.toNat ++ ascii ",\n" ++
  ascii "  \"cache_eviction_threshold\": " ++ decimal policy.cacheEvictionThreshold.toNat ++
    ascii "\n" ++
  ascii "\x7d\n"

/-! ## Reading -/

/-- `pos = json.find(name); if (pos != npos) { … }` -/
def atName (json name : Bytes) (policy : FullStoragePolicy)
    (read : ℕ → Except Error FullStoragePolicy) : Except Error FullStoragePolicy :=
  match find json name 0 with
  | none => pure policy
  | some pos => read pos

/-- The text between the next two quotation marks. -/
def quotedText (json : Bytes) (pos : ℕ) : Except Error Bytes :=
  let start := beyond (find json [34] pos)
  substr json start (distance start (find json [34] start))

/-- The text between the next colon and the next comma behind it, or brace if there is no comma. -/
def numberText (json : Bytes) (pos : ℕ) : Except Error Bytes :=
  let start := find json [58] pos
  let last := start.bind (find json [44]) <|> start.bind (find json [125])
  substr json (beyond start) (distance (beyond start) last)

/-- The text between the next colon and the next brace behind it. -/
def lastNumberText (json : Bytes) (pos : ℕ) : Except Error Bytes :=
  let start := find json [58] pos
  substr json (beyond start) (distance (beyond start) (start.bind (find json [125])))

def readEnabled (json : Bytes) (policy : FullStoragePolicy) : Except Error FullStoragePolicy :=
  atName json (ascii "enabled") policy fun pos => do
    let comma := find json [44] pos <|> find json [125] pos
    let val ← substr json (pos + 8) (distance (pos + 8) comma)
    pure { policy with enabled := (find val (ascii "true") 0).isSome }

def readDirectory (json : Bytes) (policy : FullStoragePolicy) : Except Error FullStoragePolicy :=
  atName json (ascii "directory") policy fun pos => do
    let directory ← quotedText json pos
    pure { policy with directory }

def readMemoryBudget (json : Bytes) (policy : FullStoragePolicy) :
    Except Error FullStoragePolicy :=
  atName json (ascii "memory_budget_bytes") policy fun pos => do
    let number ← stoull (← numberText json pos)
    pure { policy with memoryBudgetBytes := number }

def readTargetChunkSize (json : Bytes) (policy : FullStoragePolicy) :
    Except Error FullStoragePolicy :=
  atName json (ascii "target_chunk_size_bytes") policy fun pos => do
    let number ← stoull (← numberText json pos)
    pure { policy with targetChunkSizeBytes := number }

def readCompression (json : Bytes) (policy : FullStoragePolicy) :
    Except Error FullStoragePolicy :=
  atName json (ascii "compression") policy fun pos => do
    let compression ← CompressionAlgorithm.parse (← quotedText json pos)
    pure { policy with compression }

def readMaxConcurrentIo (json : Bytes) (policy : FullStoragePolicy) :
    Except Error FullStoragePolicy :=
  atName json (ascii "max_concurrent_io") policy fun pos => do
    let number ← stoul (← numberText json pos)
    pure { policy with maxConcurrentIo := number.toUInt32 }

def readCacheEvictionThreshold (json : Bytes) (policy : FullStoragePolicy) :
    Except Error FullStoragePolicy :=
  atName json (ascii "cache_eviction_threshold") policy fun pos => do
    let number ← stoul (← lastNumberText json pos)
    pure { policy with cacheEvictionThreshold := number.toUInt32 }

/-- What `fromJson` does before it catches every exception. -/
def parseJson (json : Bytes) : Except Error FullStoragePolicy := do
  let policy ← readEnabled json {}
  let policy ← readDirectory json policy
  let policy ← readMemoryBudget json policy
  let policy ← readTargetChunkSize json policy
  let policy ← readCompression json policy
  let policy ← readMaxConcurrentIo json policy
  let policy ← readCacheEvictionThreshold json policy
  policy.validate
  pure policy

def fromJson (json : Bytes) : Option FullStoragePolicy :=
  (parseJson json).toOption

theorem toOption_eq_some {ε α : Type} {x : Except ε α} {a : α} :
    x.toOption = some a ↔ x = .ok a := by
  cases x <;> simp [Except.toOption]

/-- What is read has passed its checks. -/
theorem validate_fromJson {json : Bytes} {policy : FullStoragePolicy}
    (h : fromJson json = some policy) : policy.validate = .ok () := by
  rw [fromJson, toOption_eq_some] at h
  simp only [parseJson, bind_eq_ok, pure_eq_ok, Except.ok.injEq] at h
  obtain ⟨_, _, _, _, _, _, _, _, _, _, _, _, policy, _, _, hvalid, rfl⟩ := h
  exact hvalid

/-! ## The pieces of a policy's text -/

/-- What the quotation marks cut the text of a policy into. -/
def jsonPieces (policy : FullStoragePolicy) : List Bytes :=
  [ascii "\x7b\n  ", ascii "enabled", ascii ": " ++ boolText policy.enabled ++ ascii ",\n  ",
   ascii "directory", ascii ": ", policy.directory, ascii ",\n  ",
   ascii "memory_budget_bytes",
   ascii ": " ++ decimal policy.memoryBudgetBytes.toNat ++ ascii ",\n  ",
   ascii "target_chunk_size_bytes",
   ascii ": " ++ decimal policy.targetChunkSizeBytes.toNat ++ ascii ",\n  ",
   ascii "compression", ascii ": ", policy.compression.toText, ascii ",\n  ",
   ascii "max_concurrent_io", ascii ": " ++ decimal policy.maxConcurrentIo.toNat ++ ascii ",\n  ",
   ascii "cache_eviction_threshold",
   ascii ": " ++ decimal policy.cacheEvictionThreshold.toNat ++ ascii "\n\x7d\n"]

/-- A name in quotation marks, behind the end of a line. -/
def nameText (name : String) : Bytes :=
  ascii "  " ++ 34 :: ascii name ++ 34 :: ascii ": "

theorem toJson_eq (policy : FullStoragePolicy) :
    policy.toJson = [34].intercalate policy.jsonPieces := by
  have henabled : ascii "  \"enabled\": " = nameText "enabled" := by decide
  have hdirectory : ascii "  \"directory\": \"" = nameText "directory" ++ [34] := by decide
  have hbudget : ascii "  \"memory_budget_bytes\": " = nameText "memory_budget_bytes" := by decide
  have htarget : ascii "  \"target_chunk_size_bytes\": " = nameText "target_chunk_size_bytes" := by
    decide
  have hcompression : ascii "  \"compression\": \"" = nameText "compression" ++ [34] := by decide
  have hconcurrency : ascii "  \"max_concurrent_io\": " = nameText "max_concurrent_io" := by decide
  have hthreshold : ascii "  \"cache_eviction_threshold\": " =
      nameText "cache_eviction_threshold" := by decide
  have hopen : ascii "\x7b\n  " = ascii "\x7b\n" ++ ascii "  " := by decide
  have hline : ascii ",\n  " = ascii ",\n" ++ ascii "  " := by decide
  have hquote : ascii "\",\n" = 34 :: ascii ",\n" := by decide
  have hclose : ascii "\n\x7d\n" = ascii "\n" ++ ascii "\x7d\n" := by decide
  unfold toJson jsonPieces
  simp only [henabled, hdirectory, hbudget, htarget, hcompression, hconcurrency, hthreshold, hopen,
    hline, hquote, hclose, nameText, List.intercalate_cons_cons, List.intercalate_singleton,
    List.append_assoc, List.cons_append, List.nil_append]

theorem not_mem_jsonPieces {policy : FullStoragePolicy} (h : 34 ∉ policy.directory) :
    ∀ piece ∈ policy.jsonPieces, 34 ∉ piece := by
  have hdecimal : ∀ n : ℕ, (34 : UInt8) ∉ decimal n := not_mem_decimal (by decide)
  have hbool : 34 ∉ boolText policy.enabled := by cases policy.enabled <;> decide
  have hcompression : 34 ∉ policy.compression.toText := by
    rw [CompressionAlgorithm.toText]
    split
    · decide
    split <;> decide
  simp [jsonPieces, ascii, h, hdecimal, hbool, hcompression]

/-! ## What is read of a policy's text -/

/-- The piece does not name the compression, or what follows is no compression's name. -/
def Misleads (piece next : Bytes) : Prop :=
  ascii "compression" <:+: piece → next ≠ ascii "none" ∧ next ≠ ascii "lz4"

theorem misleads_of_ne {next : Bytes} (h : next ≠ ascii "none" ∧ next ≠ ascii "lz4")
    (piece : Bytes) : Misleads piece next :=
  fun _ => h

theorem misleads_colon (next : Bytes) : Misleads (ascii ": ") next :=
  fun h => absurd h (by decide)

theorem colon_ne (value : Bytes) :
    ascii ": " ++ value ≠ ascii "none" ∧ ascii ": " ++ value ≠ ascii "lz4" := by
  simp [ascii]

/-- Behind every piece with the name of the compression comes what is no compression's name: behind
the name itself a colon, and behind a directory the end of its line. -/
theorem jsonPieces_isChain (policy : FullStoragePolicy) : policy.jsonPieces.IsChain Misleads := by
  unfold jsonPieces
  simp only [List.isChain_cons_cons, List.isChain_singleton, and_true, List.append_assoc]
  have hcolon := fun piece value => misleads_of_ne (colon_ne value) piece
  exact ⟨misleads_of_ne (by decide) _, hcolon _ _, misleads_of_ne (by decide) _,
    misleads_of_ne (by decide) _, misleads_colon _, misleads_of_ne (by decide) _,
    misleads_of_ne (by decide) _, hcolon _ _, misleads_of_ne (by decide) _, hcolon _ _,
    misleads_of_ne (by decide) _, misleads_of_ne (by decide) _, misleads_colon _,
    misleads_of_ne (by decide) _, misleads_of_ne (by decide) _, hcolon _ _,
    misleads_of_ne (by decide) _, hcolon _ _⟩

/-- The last piece does not name the compression. -/
theorem not_infix_of_singleton_suffix {policy : FullStoragePolicy} {piece : Bytes}
    (h : [piece] <:+ policy.jsonPieces) : ¬ ascii "compression" <:+: piece := by
  have hlast : policy.jsonPieces.getLast? = some piece := by
    obtain ⟨front, hfront⟩ := h
    rw [← hfront]
    simp
  cases hlast
  intro hoccurs
  have hletter : (99 : UInt8) ∈ ascii ": " ++
      decimal policy.cacheEvictionThreshold.toNat ++ ascii "\n\x7d\n" :=
    hoccurs.mem (by decide)
  have hdecimal : (99 : UInt8) ∉ decimal policy.cacheEvictionThreshold.toNat :=
    not_mem_decimal (by decide) _
  simp [ascii, hdecimal] at hletter

theorem quotedText_eq {json piece : Bytes} {pos : ℕ} (h : delimited 34 json pos = some piece) :
    quotedText json pos = .ok piece := by
  rw [delimited] at h
  simp only [quotedText, substr, h, pure_eq_ok]

/-- No compression is read from the text of a policy. -/
theorem readCompression_toJson {policy : FullStoragePolicy} (h : 34 ∉ policy.directory)
    (policy' policy'' : FullStoragePolicy) : readCompression policy.toJson policy' ≠ .ok policy'' := by
  have hname : ascii "compression" <:+: policy.toJson.drop 0 := by
    rw [List.drop_zero, toJson_eq]
    exact infix_intercalate (by simp [jsonPieces])
  obtain ⟨pos, hpos⟩ := exists_find_eq_some hname
  have hfind := hpos
  rw [toJson_eq] at hfind
  have hne : policy.jsonPieces ≠ [] := List.cons_ne_nil _ _
  obtain ⟨piece, rest, hoccurs, hsuffix, hdelimited⟩ :=
    delimited_of_find hne (not_mem_jsonPieces h) (by decide) hfind
  rw [← toJson_eq] at hdelimited
  cases rest with
  | nil => exact absurd hoccurs (not_infix_of_singleton_suffix hsuffix)
  | cons next rest =>
      have hmisleads : Misleads piece next :=
        (List.isChain_cons_cons.mp ((jsonPieces_isChain policy).suffix hsuffix)).1
      obtain ⟨hnone, hlz4⟩ := hmisleads hoccurs
      intro hread
      simp only [readCompression, atName, hpos, quotedText_eq (hdelimited next rfl), ok_bind,
        CompressionAlgorithm.parse, if_neg hnone, if_neg hlz4, throw_eq_error, error_bind] at hread
      cases hread

/-- A policy without quotation marks in its directory is never read back: what follows the name of
the compression is read up to the quotation mark that begins its value. -/
theorem fromJson_toJson (policy : FullStoragePolicy) (h : 34 ∉ policy.directory) :
    fromJson policy.toJson = none := by
  apply Option.eq_none_iff_forall_ne_some.mpr
  intro policy' hread
  rw [fromJson, toOption_eq_some] at hread
  simp only [parseJson, bind_eq_ok] at hread
  obtain ⟨_, _, _, _, _, _, _, _, _, hcompression, _⟩ := hread
  exact readCompression_toJson h _ _ hcompression

theorem fromJson_toJson_default : fromJson (toJson {}) = none :=
  fromJson_toJson {} (by decide)

/-- The defaults are accepted and not read back. -/
theorem defaults_unread : validate {} = .ok () ∧
    (∀ byte ∈ ({} : FullStoragePolicy).directory, byte ≠ 34 ∧ byte ≠ 92 ∧ 32 ≤ byte ∧ byte ≠ 127) ∧
      fromJson (toJson {}) ≠ some {} := by
  decide +kernel

end GiveMePi.Storage.FullStoragePolicy
