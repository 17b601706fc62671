import GiveMePi.Storage.IndexFilenames
import GiveMePi.Storage.StoragePolicyJson

/-! # Storage policies in YAML

The text of a policy, and the lines that are read of a text. A line is recognised by the name it
begins with, and its value begins at a fixed column. -/

namespace GiveMePi.Storage.FullStoragePolicy

open Library

/-! ## Writing -/

def toYaml (policy : FullStoragePolicy) : Bytes :=
  ascii "storage:\n" ++
  ascii "  enabled: " ++ boolText policy.enabled ++ ascii "\n" ++
  ascii "  directory: " ++ policy.directory ++ ascii "\n" ++
  ascii "  memory_budget: " ++ formatBytes policy.memoryBudgetBytes ++ ascii "\n" ++
  ascii "  target_chunk_size: " ++ formatBytes policy.targetChunkSizeBytes ++ ascii "\n" ++
  ascii "  compression: " ++ policy.compression.toText ++ ascii "\n" ++
  ascii "  max_concurrent_io: " ++ decimal policy.maxConcurrentIo.toNat ++ ascii "\n" ++
  ascii "  cache_eviction_threshold: " ++ decimal policy.cacheEvictionThreshold.toNat ++
    ascii "%\n"

/-! ## Reading -/

/-- A line that begins with a name changes the field of that name. -/
def readEntry (policy : FullStoragePolicy) (line : Bytes) : Except Error FullStoragePolicy :=
  if find line (ascii "  enabled:") 0 = some 0 then
    pure { policy with enabled := (find line (ascii "true") 0).isSome }
  else if find line (ascii "  directory:") 0 = some 0 then do
    let directory ← substr line 12 none
    pure { policy with directory }
  else if find line (ascii "  memory_budget:") 0 = some 0 then do
    let number ← parseBytes (← substr line 17 none)
    pure { policy with memoryBudgetBytes := number }
  else if find line (ascii "  target_chunk_size:") 0 = some 0 then do
    let number ← parseBytes (← substr line 21 none)
    pure { policy with targetChunkSizeBytes := number }
  else if find line (ascii "  compression:") 0 = some 0 then do
    let compression ← CompressionAlgorithm.parse (← substr line 15 none)
    pure { policy with compression }
  else if find line (ascii "  max_concurrent_io:") 0 = some 0 then do
    let number ← stoi (← substr line 21 none)
    pure { policy with maxConcurrentIo := .ofInt number }
  else if find line (ascii "  cache_eviction_threshold:") 0 = some 0 then do
    let number ← stoi (← substr line 28 none)
    pure { policy with cacheEvictionThreshold := .ofInt number }
  else pure policy

/-- The policy so far, and whether the line that begins the storage's part has been read. -/
structure YamlState where
  policy : FullStoragePolicy := {}
  inStorage : Bool := false

def readLine (state : YamlState) (line : Bytes) : Except Error YamlState :=
  if line = [] ∨ line.head? = some 35 then pure state
  else if find line (ascii "storage:") 0 = some 0 then pure { state with inStorage := true }
  else if state.inStorage = false then pure state
  else do
    let policy ← readEntry state.policy line
    pure { state with policy }

/-- What `fromYaml` does before it catches every exception. -/
def parseYaml (yaml : Bytes) : Except Error FullStoragePolicy := do
  let state ← (textLines yaml).foldlM readLine {}
  state.policy.validate
  pure state.policy

def fromYaml (yaml : Bytes) : Option FullStoragePolicy :=
  (parseYaml yaml).toOption

/-- What is read has passed its checks. -/
theorem validate_fromYaml {yaml : Bytes} {policy : FullStoragePolicy}
    (h : fromYaml yaml = some policy) : policy.validate = .ok () := by
  rw [fromYaml, toOption_eq_some] at h
  simp only [parseYaml, bind_eq_ok, pure_eq_ok, Except.ok.injEq] at h
  obtain ⟨state, _, _, hvalid, rfl⟩ := h
  exact hvalid

/-! ## Entries -/

variable {policy policy' : FullStoragePolicy}

theorem readEntry_enabled (value : Bool) :
    readEntry policy (ascii "  enabled: " ++ boolText value) =
      .ok { policy with enabled := value } := by
  have hname : find (ascii "  enabled: " ++ boolText value) (ascii "  enabled:") 0 = some 0 := by
    cases value <;> decide
  have hvalue : (find (ascii "  enabled: " ++ boolText value) (ascii "true") 0).isSome = value := by
    cases value <;> decide
  rw [readEntry, if_pos hname, hvalue]
  rfl

theorem readEntry_directory (directory : Bytes) :
    readEntry policy (ascii "  directory: " ++ directory) =
      .ok { policy with directory := 32 :: directory } := by
  simp only [readEntry, find_eq_zero_iff]
  rfl

theorem readEntry_memoryBudget (bytes : UInt64) :
    readEntry policy (ascii "  memory_budget: " ++ formatBytes bytes) =
      .ok { policy with memoryBudgetBytes := bytes / printedUnit bytes } := by
  have hread : readEntry policy (ascii "  memory_budget: " ++ formatBytes bytes) = (do
      let number ← parseBytes (formatBytes bytes)
      pure { policy with memoryBudgetBytes := number }) := by
    simp only [readEntry, find_eq_zero_iff]
    rfl
  rw [hread, parseBytes_formatBytes]
  rfl

theorem readEntry_targetChunkSize (bytes : UInt64) :
    readEntry policy (ascii "  target_chunk_size: " ++ formatBytes bytes) =
      .ok { policy with targetChunkSizeBytes := bytes / printedUnit bytes } := by
  have hread : readEntry policy (ascii "  target_chunk_size: " ++ formatBytes bytes) = (do
      let number ← parseBytes (formatBytes bytes)
      pure { policy with targetChunkSizeBytes := number }) := by
    simp only [readEntry, find_eq_zero_iff]
    rfl
  rw [hread, parseBytes_formatBytes]
  rfl

theorem readEntry_compression (compression : CompressionAlgorithm) :
    readEntry policy (ascii "  compression: " ++ compression.toText) = .ok policy' ↔
      (compression = .none ∨ compression = .lz4) ∧ policy' = { policy with compression } := by
  have hread : readEntry policy (ascii "  compression: " ++ compression.toText) = (do
      let compression ← CompressionAlgorithm.parse compression.toText
      pure { policy with compression }) := by
    simp only [readEntry, find_eq_zero_iff]
    rfl
  rw [hread, bind_eq_ok]
  constructor
  · rintro ⟨parsed, hparsed, hpolicy⟩
    have hknown : compression = .none ∨ compression = .lz4 := by
      by_contra hunknown
      rw [not_or] at hunknown
      rw [CompressionAlgorithm.toText, if_neg hunknown.1, if_neg hunknown.2] at hparsed
      cases hparsed
    rw [CompressionAlgorithm.parse_toText hknown] at hparsed
    cases hparsed
    cases hpolicy
    exact ⟨hknown, rfl⟩
  · rintro ⟨hknown, rfl⟩
    exact ⟨compression, CompressionAlgorithm.parse_toText hknown, rfl⟩

theorem ofInt_toNat (n : UInt32) : UInt32.ofInt n.toNat = n := by
  have hlt := n.toNat_lt
  apply UInt32.toNat_inj.mp
  rw [UInt32.ofInt, UInt32.toNat_ofNat']
  omega

/-- A number is read as an `int`, which has 31 bits for it. -/
theorem stoi_bind_eq_ok (n : UInt32) {rest : Bytes} (hrest : EndsNumber rest)
    (update : UInt32 → FullStoragePolicy) :
    (do let number ← stoi (decimal n.toNat ++ rest); pure (update (.ofInt number))) = .ok policy' ↔
      n.toNat < 2 ^ 31 ∧ policy' = update n := by
  simp only [bind_eq_ok, stoi_decimal _ hrest, pure_eq_ok, Except.ok.injEq]
  constructor
  · rintro ⟨_, ⟨hlt, rfl⟩, rfl⟩
    exact ⟨hlt, by rw [ofInt_toNat]⟩
  · rintro ⟨hlt, rfl⟩
    exact ⟨_, ⟨hlt, rfl⟩, by rw [ofInt_toNat]⟩

theorem readEntry_maxConcurrentIo (n : UInt32) :
    readEntry policy (ascii "  max_concurrent_io: " ++ decimal n.toNat) = .ok policy' ↔
      n.toNat < 2 ^ 31 ∧ policy' = { policy with maxConcurrentIo := n } := by
  have hread : readEntry policy (ascii "  max_concurrent_io: " ++ decimal n.toNat) = (do
      let number ← stoi (decimal n.toNat ++ [])
      pure { policy with maxConcurrentIo := .ofInt number }) := by
    rw [List.append_nil]
    simp only [readEntry, find_eq_zero_iff]
    rfl
  have hrest : EndsNumber [] := by simp [EndsNumber]
  rw [hread]
  exact stoi_bind_eq_ok n hrest fun number => { policy with maxConcurrentIo := number }

theorem readEntry_cacheEvictionThreshold (n : UInt32) :
    readEntry policy (ascii "  cache_eviction_threshold: " ++ (decimal n.toNat ++ ascii "%")) =
      .ok policy' ↔
        n.toNat < 2 ^ 31 ∧ policy' = { policy with cacheEvictionThreshold := n } := by
  have hread :
      readEntry policy (ascii "  cache_eviction_threshold: " ++ (decimal n.toNat ++ ascii "%")) = (do
        let number ← stoi (decimal n.toNat ++ ascii "%")
        pure { policy with cacheEvictionThreshold := .ofInt number }) := by
    simp only [readEntry, find_eq_zero_iff]
    rfl
  have hrest : EndsNumber (ascii "%") := endsNumber_cons (by decide)
  rw [hread]
  exact stoi_bind_eq_ok n hrest fun number => { policy with cacheEvictionThreshold := number }

/-! ## What is read of a policy's text -/

/-- The lines of a policy's text behind the first. -/
def yamlEntries (policy : FullStoragePolicy) : List Bytes :=
  [ascii "  enabled: " ++ boolText policy.enabled,
   ascii "  directory: " ++ policy.directory,
   ascii "  memory_budget: " ++ formatBytes policy.memoryBudgetBytes,
   ascii "  target_chunk_size: " ++ formatBytes policy.targetChunkSizeBytes,
   ascii "  compression: " ++ policy.compression.toText,
   ascii "  max_concurrent_io: " ++ decimal policy.maxConcurrentIo.toNat,
   ascii "  cache_eviction_threshold: " ++
     (decimal policy.cacheEvictionThreshold.toNat ++ ascii "%")]

theorem toYaml_eq (policy : FullStoragePolicy) :
    policy.toYaml = ((ascii "storage:" :: policy.yamlEntries).map (· ++ [10])).flatten := by
  have hheader : ascii "storage:\n" = ascii "storage:" ++ [10] := by decide
  have hlast : ascii "%\n" = ascii "%" ++ [10] := by decide
  have hend : ascii "\n" = [10] := by decide
  unfold toYaml yamlEntries
  simp only [hheader, hlast, hend, List.map_cons, List.map_nil, List.flatten_cons,
    List.flatten_nil, List.append_assoc, List.append_nil]

/-- What a policy becomes: the blank in front of the directory belongs to it, and numbers of units
are numbers of bytes. -/
def reread (policy : FullStoragePolicy) : FullStoragePolicy :=
  { policy with
    directory := 32 :: policy.directory
    memoryBudgetBytes := policy.memoryBudgetBytes / printedUnit policy.memoryBudgetBytes
    targetChunkSizeBytes := policy.targetChunkSizeBytes / printedUnit policy.targetChunkSizeBytes }

/-- The numbers of a policy are in the range of `int`, and its compression has a name. -/
structure IsReadable (policy : FullStoragePolicy) : Prop where
  compression_eq : policy.compression = .none ∨ policy.compression = .lz4
  concurrency_lt : policy.maxConcurrentIo.toNat < 2 ^ 31
  threshold_lt : policy.cacheEvictionThreshold.toNat < 2 ^ 31

theorem foldlM_readEntry {initial : FullStoragePolicy} :
    policy.yamlEntries.foldlM readEntry initial = .ok policy' ↔
      policy.IsReadable ∧ policy' = policy.reread := by
  simp only [yamlEntries, List.foldlM_cons, List.foldlM_nil, readEntry_enabled,
    readEntry_directory, readEntry_memoryBudget, readEntry_targetChunkSize, ok_bind, bind_eq_ok,
    readEntry_compression, readEntry_maxConcurrentIo, readEntry_cacheEvictionThreshold, pure_eq_ok,
    Except.ok.injEq]
  constructor
  · rintro ⟨_, ⟨hcompression, rfl⟩, _, ⟨hconcurrency, rfl⟩, _, ⟨hthreshold, rfl⟩, rfl⟩
    exact ⟨⟨hcompression, hconcurrency, hthreshold⟩, rfl⟩
  · rintro ⟨h, rfl⟩
    exact ⟨_, ⟨h.compression_eq, rfl⟩, _, ⟨h.concurrency_lt, rfl⟩, _, ⟨h.threshold_lt, rfl⟩, rfl⟩

/-- In the storage's part, an indented line is an entry. -/
theorem readLine_entry {line : Bytes} (h : line.head? = some 32) :
    readLine ⟨policy, true⟩ line = (do
      let policy ← readEntry policy line
      pure ⟨policy, true⟩) := by
  cases line with
  | nil => cases h
  | cons byte line =>
      cases h
      simp only [readLine, find_eq_zero_iff]
      rfl

theorem foldlM_readLine {entries : List Bytes} (h : ∀ line ∈ entries, line.head? = some 32) :
    entries.foldlM readLine ⟨policy, true⟩ = (do
      let policy ← entries.foldlM readEntry policy
      pure ⟨policy, true⟩) := by
  induction entries generalizing policy with
  | nil => rfl
  | cons line entries ih =>
      rw [List.foldlM_cons, List.foldlM_cons, readLine_entry (h line (by simp)), bind_assoc,
        bind_assoc]
      congr 1
      funext next
      exact ih fun line hline => h line (.tail _ hline)

theorem not_mem_yamlEntries (h : 10 ∉ policy.directory) :
    ∀ line ∈ ascii "storage:" :: policy.yamlEntries, 10 ∉ line := by
  have hdecimal : ∀ n : ℕ, (10 : UInt8) ∉ decimal n := not_mem_decimal (by decide)
  have hbool : 10 ∉ boolText policy.enabled := by cases policy.enabled <;> decide
  have hcompression : 10 ∉ policy.compression.toText := by
    rw [CompressionAlgorithm.toText]
    split
    · decide
    split <;> decide
  have hformat : ∀ bytes, 10 ∉ formatBytes bytes := by
    intro bytes
    obtain ⟨behind, _, _, hbehind, hformat⟩ := formatBytes_eq bytes
    rw [hformat]
    simp [ascii, hdecimal, hbehind]
  simp [yamlEntries, ascii, h, hdecimal, hbool, hcompression, hformat]

/-- What is read of the text of a policy. -/
theorem fromYaml_toYaml_eq_some (h : 10 ∉ policy.directory) :
    fromYaml policy.toYaml = some policy' ↔
      policy.IsReadable ∧ policy' = policy.reread ∧ policy'.validate = .ok () := by
  have hheads : ∀ line ∈ policy.yamlEntries, line.head? = some 32 := by
    simp [yamlEntries, ascii]
  have hheader : readLine {} (ascii "storage:") = .ok ⟨{}, true⟩ := rfl
  rw [fromYaml, toOption_eq_some, parseYaml, toYaml_eq, textLines_flatten (not_mem_yamlEntries h),
    List.foldlM_cons, hheader, ok_bind, foldlM_readLine hheads]
  simp only [bind_eq_ok, foldlM_readEntry, pure_eq_ok, Except.ok.injEq]
  constructor
  · rintro ⟨_, ⟨_, ⟨hreadable, rfl⟩, rfl⟩, _, hvalid, rfl⟩
    exact ⟨hreadable, rfl, hvalid⟩
  · rintro ⟨hreadable, rfl, hvalid⟩
    exact ⟨_, ⟨_, ⟨hreadable, rfl⟩, rfl⟩, (), hvalid, rfl⟩

/-! ## Paths

Paths are the same only if the names in them are. -/

theorem components_blank_ne (directory : Bytes) :
    ChunkIndex.components (32 :: directory) ≠ ChunkIndex.components directory := by
  obtain ⟨first, rest, hsplit⟩ := List.exists_cons_of_ne_nil (List.splitOn_ne_nil 47 directory)
  have hblank : (32 :: directory).splitOn 47 = (32 :: first) :: rest := by
    rw [List.splitOn_cons_eq_if_modifyHead, hsplit]
    rfl
  rw [ChunkIndex.components, ChunkIndex.components, hblank, hsplit]
  cases first with
  | nil =>
      intro h
      have := congrArg List.length h
      simp at this
  | cons byte first => simp

/-- No policy is read back with its own directory, and a byte count is read back as what it was exactly
when it is below a kilobyte. -/
theorem fromYaml_toYaml (policy : FullStoragePolicy) (h : 10 ∉ policy.directory) (bytes : UInt64) :
    (¬ ∃ policy', fromYaml policy.toYaml = some policy' ∧
      ChunkIndex.components policy'.directory = ChunkIndex.components policy.directory) ∧
      (parseBytes (formatBytes bytes) = .ok bytes ↔ bytes < kilobyte) := by
  refine ⟨?_, parseBytes_formatBytes_iff bytes⟩
  rintro ⟨policy', hread, hcomponents⟩
  obtain ⟨_, rfl, _⟩ := (fromYaml_toYaml_eq_some h).mp hread
  exact components_blank_ne policy.directory hcomponents

theorem fromYaml_toYaml_default :
    (¬ ∃ policy', fromYaml (toYaml {}) = some policy' ∧
      ChunkIndex.components policy'.directory = ChunkIndex.components (ascii "storage")) ∧
      (parseBytes (formatBytes 1000) = .ok 1000 ↔ (1000 : UInt64) < kilobyte) :=
  fromYaml_toYaml {} (by decide) 1000

/-- The defaults are accepted, and read back with another directory and half a kilobyte for half a
gigabyte. -/
theorem defaults_reread : validate {} = .ok () ∧
    defaultMemoryBudgetBytes % printedUnit defaultMemoryBudgetBytes = 0 ∧
    defaultTargetChunkSizeBytes % printedUnit defaultTargetChunkSizeBytes = 0 ∧
    (∀ byte ∈ ({} : FullStoragePolicy).directory, byte ≠ 10 ∧ ¬ IsBlank byte) ∧
    fromYaml (toYaml {}) = some
      { directory := ascii " storage", memoryBudgetBytes := 512, targetChunkSizeBytes := 64 } ∧
    fromYaml (toYaml {}) ≠ some {} ∧
    parseBytes (formatBytes defaultMemoryBudgetBytes) ≠ .ok defaultMemoryBudgetBytes := by
  decide +kernel

end GiveMePi.Storage.FullStoragePolicy
