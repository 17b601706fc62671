import GiveMePi.Config.Config
import GiveMePi.Storage.ChunkStore
import GiveMePi.StringConversion

/-! # Storage policies

What the storage is configured with, its defaults, its checks, and the texts of its values. -/

namespace GiveMePi.Storage

open Library

/-! ## Compression algorithms -/

namespace CompressionAlgorithm

/-- `toString` -/
def toText (compression : CompressionAlgorithm) : Bytes :=
  if compression = .none then ascii "none"
  else if compression = .lz4 then ascii "lz4"
  else ascii "unknown"

def parse (value : Bytes) : Except Error CompressionAlgorithm :=
  if value = ascii "none" then pure .none
  else if value = ascii "lz4" then pure .lz4
  else throw (.invalidArgument ("Unsupported storage compression: " ++ spelled value))

theorem parse_toText {compression : CompressionAlgorithm}
    (h : compression = .none ∨ compression = .lz4) : parse compression.toText = .ok compression := by
  rcases h with rfl | rfl
  · rfl
  · rfl

theorem parse_eq_ok {value : Bytes} {compression : CompressionAlgorithm} :
    parse value = .ok compression ↔
      (compression = .none ∨ compression = .lz4) ∧ value = compression.toText := by
  constructor
  · intro h
    rw [parse] at h
    split at h
    · cases h
      exact ⟨.inl rfl, ‹_›⟩
    · split at h
      · cases h
        exact ⟨.inr rfl, ‹_›⟩
      · cases h
  · rintro ⟨h, rfl⟩
    exact parse_toText h

end CompressionAlgorithm

/-! ## Byte counts -/

def kilobyte : UInt64 := 1024
def megabyte : UInt64 := kilobyte * kilobyte
def gigabyte : UInt64 := megabyte * kilobyte

/-- `std::to_string(std::round(quotient))`: the quotient is a whole number that a double holds. -/
def rounded (quotient : UInt64) : Bytes :=
  decimal quotient.toNat ++ ascii ".000000"

def formatBytes (bytes : UInt64) : Bytes :=
  if bytes ≥ gigabyte then rounded (bytes / gigabyte) ++ ascii " GB"
  else if bytes ≥ megabyte then rounded (bytes / megabyte) ++ ascii " MB"
  else if bytes ≥ kilobyte then rounded (bytes / kilobyte) ++ ascii " KB"
  else decimal bytes.toNat ++ ascii " B"

/-- `::toupper` -/
def toUpper (byte : UInt8) : UInt8 :=
  if 97 ≤ byte ∧ byte ≤ 122 then byte - 32 else byte

/-- The multiplier `parseBytes` chooses: the "B" that every unit ends with comes first. -/
def multiplierOf (bPos kbPos mbPos gbPos : Option ℕ) : UInt64 :=
  if bPos ≠ none then 1
  else if kbPos ≠ none then 1024
  else if mbPos ≠ none then 1024 * 1024
  else if gbPos ≠ none then 1024 * 1024 * 1024
  else 1

def parseBytes (value : Bytes) : Except Error UInt64 := do
  let upperValue := value.map toUpper
  let bPos := find upperValue (ascii "B") 0
  let kbPos := find upperValue (ascii "KB") 0
  let mbPos := find upperValue (ascii "MB") 0
  let gbPos := find upperValue (ascii "GB") 0
  let multiplier := multiplierOf bPos kbPos mbPos gbPos
  -- `npos` is greater than zero
  let numberStr ← substr value 0 (if bPos ≠ some 0 then bPos else if kbPos ≠ some 0 then kbPos
    else if mbPos ≠ some 0 then mbPos else gbPos)
  match stoull numberStr with
  | .ok number => pure (number * multiplier)
  | .error _ => throw (.invalidArgument ("Invalid byte value: " ++ spelled value))

/-- The unit that `formatBytes` prints a byte count in. -/
def printedUnit (bytes : UInt64) : UInt64 :=
  if bytes ≥ gigabyte then gigabyte
  else if bytes ≥ megabyte then megabyte
  else if bytes ≥ kilobyte then kilobyte
  else 1

/-- A number is printed, then what is no number, and the "B" of the unit. -/
theorem formatBytes_eq (bytes : UInt64) : ∃ behind : Bytes,
    EndsNumber behind ∧ 66 ∉ behind.map toUpper ∧ 10 ∉ behind ∧
      formatBytes bytes = decimal (bytes / printedUnit bytes).toNat ++ behind ++ ascii "B" := by
  have hdot : ¬ IsDigit 46 := by decide
  have hblank : ¬ IsDigit 32 := by decide
  rw [formatBytes, printedUnit]
  split
  · exact ⟨ascii ".000000 G", endsNumber_cons hdot, by decide, by decide, by simp [rounded, ascii]⟩
  split
  · exact ⟨ascii ".000000 M", endsNumber_cons hdot, by decide, by decide, by simp [rounded, ascii]⟩
  split
  · exact ⟨ascii ".000000 K", endsNumber_cons hdot, by decide, by decide, by simp [rounded, ascii]⟩
  · exact ⟨ascii " ", endsNumber_cons hblank, by decide, by decide, by simp [ascii]⟩

theorem toUpper_of_isDigit {byte : UInt8} (h : IsDigit byte) : toUpper byte = byte := by
  rw [IsDigit] at h
  rw [toUpper, if_neg]
  rintro ⟨hlow, _⟩
  have hlow : 97 ≤ byte.toNat := UInt8.le_iff_toNat_le.mp hlow
  omega

theorem map_toUpper_decimal (n : ℕ) : (decimal n).map toUpper = decimal n :=
  (List.map_congr_left fun _ hbyte => toUpper_of_isDigit (isDigit_of_mem_decimal hbyte)).trans
    (List.map_id _)

/-- A number in front of the first "B" is read as a number of bytes. -/
theorem parseBytes_append {number : Bytes} {n : UInt64} (hne : number ≠ [])
    (hplain : 66 ∉ number.map toUpper) (h : stoull number = .ok n) :
    parseBytes (number ++ ascii "B") = .ok n := by
  have hupper : ((number ++ ascii "B").map toUpper).drop 0 = number.map toUpper ++ 66 :: [] := by
    rw [List.drop_zero, List.map_append]
    rfl
  have hfind : find ((number ++ ascii "B").map toUpper) (ascii "B") 0 = some number.length := by
    have hfound := find_singleton hupper hplain
    rw [List.length_map, Nat.zero_add] at hfound
    exact hfound
  have hsubstr : substr (number ++ ascii "B") 0 (some number.length) = .ok number := by
    rw [substr_eq _ (Nat.zero_le _)]
    simp
  have hpositive : some number.length ≠ some 0 := by simpa using hne
  have hposition : some number.length ≠ none := by simp
  simp only [parseBytes, hfind, multiplierOf, if_pos hpositive, if_pos hposition, hsubstr, ok_bind,
    h, pure_eq_ok, UInt64.mul_one]

/-- What is printed in a unit is read as that many bytes. -/
theorem parseBytes_formatBytes (bytes : UInt64) :
    parseBytes (formatBytes bytes) = .ok (bytes / printedUnit bytes) := by
  obtain ⟨behind, hends, hplain, _, hformat⟩ := formatBytes_eq bytes
  rw [hformat]
  refine parseBytes_append (by simp [decimal_ne_nil]) ?_ (stoull_decimal _ hends)
  rw [List.map_append, map_toUpper_decimal, List.mem_append, not_or]
  exact ⟨not_mem_decimal (by decide) _, hplain⟩

/-- Reading back what is printed gives the same byte count exactly when it is below a kilobyte. -/
theorem parseBytes_formatBytes_iff (bytes : UInt64) :
    parseBytes (formatBytes bytes) = .ok bytes ↔ bytes < kilobyte := by
  rw [parseBytes_formatBytes, Except.ok.injEq, printedUnit, ← UInt64.toNat_inj,
    UInt64.lt_iff_toNat_lt]
  have hkilobyte : kilobyte.toNat = 2 ^ 10 := rfl
  have hmegabyte : megabyte.toNat = 2 ^ 20 := rfl
  have hgigabyte : gigabyte.toNat = 2 ^ 30 := rfl
  split
  · next h =>
      have h : gigabyte.toNat ≤ bytes.toNat := UInt64.le_iff_toNat_le.mp h
      rw [UInt64.toNat_div, hgigabyte]
      omega
  split
  · next h =>
      have h : megabyte.toNat ≤ bytes.toNat := UInt64.le_iff_toNat_le.mp h
      rw [UInt64.toNat_div, hmegabyte]
      omega
  split
  · next h =>
      have h : kilobyte.toNat ≤ bytes.toNat := UInt64.le_iff_toNat_le.mp h
      rw [UInt64.toNat_div, hkilobyte]
      omega
  · next h =>
      have h : bytes.toNat < kilobyte.toNat := by
        rw [← UInt64.lt_iff_toNat_lt]
        exact UInt64.not_le.mp h
      simp [h]

/-! ## Policies -/

def defaultMemoryBudgetBytes : UInt64 := 512 * 1024 * 1024
def defaultTargetChunkSizeBytes : UInt64 := 64 * 1024 * 1024
def defaultMaxConcurrentIo : UInt32 := 1
def defaultCacheEvictionThreshold : UInt32 := 80

/-- A policy with all its fields; files are named and packed by the other two alone. -/
structure FullStoragePolicy extends StoragePolicy where
  directory := ascii "storage"
  compression := .none
  enabled : Bool := true
  memoryBudgetBytes : UInt64 := defaultMemoryBudgetBytes
  targetChunkSizeBytes : UInt64 := defaultTargetChunkSizeBytes
  maxConcurrentIo : UInt32 := defaultMaxConcurrentIo
  cacheEvictionThreshold : UInt32 := defaultCacheEvictionThreshold
deriving DecidableEq, Repr

namespace FullStoragePolicy

def validate (policy : FullStoragePolicy) : Except Error Unit :=
  if policy.enabled = true then do
    throwIf (policy.directory = []) (.invalidArgument "Storage directory must not be empty")
    throwIf (policy.memoryBudgetBytes = 0)
      (.invalidArgument "Storage memory budget must be greater than zero")
    throwIf (policy.targetChunkSizeBytes = 0)
      (.invalidArgument "Storage target chunk size must be greater than zero")
    throwIf (policy.targetChunkSizeBytes > policy.memoryBudgetBytes)
      (.invalidArgument ("Storage target chunk size (" ++
        spelled (formatBytes policy.targetChunkSizeBytes) ++ ") must not exceed memory budget (" ++
        spelled (formatBytes policy.memoryBudgetBytes) ++ ")"))
    throwIf (policy.maxConcurrentIo = 0)
      (.invalidArgument "Storage maximum concurrent I/O must be greater than zero")
    throwIf (policy.cacheEvictionThreshold < 1 ∨ policy.cacheEvictionThreshold > 100)
      (.invalidArgument "Cache eviction threshold must be between 1 and 100")
    throwIf (policy.compression ≠ .none ∧ policy.compression ≠ .lz4)
      (.invalidArgument "Unsupported storage compression algorithm")
  else pure ()

/-- What is checked of a policy that is enabled. -/
structure IsUsable (policy : FullStoragePolicy) : Prop where
  directory_ne : policy.directory ≠ []
  budget_ne : policy.memoryBudgetBytes ≠ 0
  target_ne : policy.targetChunkSizeBytes ≠ 0
  target_le : policy.targetChunkSizeBytes ≤ policy.memoryBudgetBytes
  concurrency_ne : policy.maxConcurrentIo ≠ 0
  threshold_le : 1 ≤ policy.cacheEvictionThreshold ∧ policy.cacheEvictionThreshold ≤ 100
  compression_eq : policy.compression = .none ∨ policy.compression = .lz4

theorem validate_eq_ok {policy : FullStoragePolicy} {u : Unit} :
    policy.validate = .ok u ↔ (policy.enabled = true → policy.IsUsable) := by
  rw [validate]
  split
  · next henabled =>
      simp only [bind_eq_ok, throwIf_eq_ok, exists_const, not_or, not_lt, gt_iff_lt, not_and_or,
        not_not, henabled, forall_const]
      constructor
      · rintro ⟨hdirectory, hbudget, htarget, hle, hconcurrency, hthreshold, hcompression⟩
        exact ⟨hdirectory, hbudget, htarget, hle, hconcurrency, hthreshold, hcompression⟩
      · intro h
        exact ⟨h.directory_ne, h.budget_ne, h.target_ne, h.target_le, h.concurrency_ne,
          h.threshold_le, h.compression_eq⟩
  · next henabled => simp [henabled]

/-- The defaults pass their checks. -/
theorem validate_default : validate {} = .ok () := by
  decide

/-! ## Changing a policy -/

def setMemoryBudget (policy : FullStoragePolicy) (bytes : UInt64) :
    Except Error FullStoragePolicy := do
  throwIf (bytes = 0) (.invalidArgument "Memory budget must be greater than zero")
  throwIf (policy.targetChunkSizeBytes > bytes)
    (.invalidArgument "Memory budget must be greater than target chunk size")
  pure { policy with memoryBudgetBytes := bytes }

def setTargetChunkSize (policy : FullStoragePolicy) (bytes : UInt64) :
    Except Error FullStoragePolicy := do
  throwIf (bytes = 0) (.invalidArgument "Target chunk size must be greater than zero")
  throwIf (bytes > policy.memoryBudgetBytes)
    (.invalidArgument "Target chunk size must not exceed memory budget")
  pure { policy with targetChunkSizeBytes := bytes }

def setCompression (policy : FullStoragePolicy) (algo : CompressionAlgorithm) :
    Except Error FullStoragePolicy := do
  throwIf (algo ≠ .none ∧ algo ≠ .lz4) (.invalidArgument "Unsupported compression algorithm")
  pure { policy with compression := algo }

/-- `setCompression` of a text. -/
def setCompressionNamed (policy : FullStoragePolicy) (algo : Bytes) :
    Except Error FullStoragePolicy := do
  let algo ← CompressionAlgorithm.parse algo
  policy.setCompression algo

def setMaxConcurrentIo (policy : FullStoragePolicy) (ioCount : UInt32) :
    Except Error FullStoragePolicy := do
  throwIf (ioCount = 0) (.invalidArgument "Max concurrent I/O must be greater than zero")
  pure { policy with maxConcurrentIo := ioCount }

def setCacheEvictionThreshold (policy : FullStoragePolicy) (threshold : UInt32) :
    Except Error FullStoragePolicy := do
  throwIf (threshold < 1 ∨ threshold > 100)
    (.invalidArgument "Eviction threshold must be between 1 and 100")
  pure { policy with cacheEvictionThreshold := threshold }

/-- A call that changes a policy. -/
inductive Setting where
  | memoryBudget (bytes : UInt64)
  | targetChunkSize (bytes : UInt64)
  | compression (algo : CompressionAlgorithm)
  | compressionNamed (algo : Bytes)
  | maxConcurrentIo (ioCount : UInt32)
  | cacheEvictionThreshold (threshold : UInt32)

def set (policy : FullStoragePolicy) : Setting → Except Error FullStoragePolicy
  | .memoryBudget bytes => policy.setMemoryBudget bytes
  | .targetChunkSize bytes => policy.setTargetChunkSize bytes
  | .compression algo => policy.setCompression algo
  | .compressionNamed algo => policy.setCompressionNamed algo
  | .maxConcurrentIo ioCount => policy.setMaxConcurrentIo ioCount
  | .cacheEvictionThreshold threshold => policy.setCacheEvictionThreshold threshold

variable {policy policy' : FullStoragePolicy}

theorem setCompression_isUsable {algo : CompressionAlgorithm} (h : policy.IsUsable)
    (hset : policy.setCompression algo = .ok policy') : policy'.IsUsable := by
  simp only [setCompression, bind_eq_ok, throwIf_eq_ok, exists_const, pure_eq_ok,
    Except.ok.injEq, not_and_or, not_not] at hset
  obtain ⟨halgo, rfl⟩ := hset
  exact { h with compression_eq := halgo }

/-- A change that is accepted keeps what is checked. -/
theorem set_isUsable {setting : Setting} (h : policy.IsUsable)
    (hset : policy.set setting = .ok policy') : policy'.IsUsable := by
  cases setting with
  | memoryBudget bytes =>
      simp only [set, setMemoryBudget, bind_eq_ok, throwIf_eq_ok, exists_const, pure_eq_ok,
        Except.ok.injEq, not_lt, gt_iff_lt] at hset
      obtain ⟨hbytes, htarget, rfl⟩ := hset
      exact { h with budget_ne := hbytes, target_le := htarget }
  | targetChunkSize bytes =>
      simp only [set, setTargetChunkSize, bind_eq_ok, throwIf_eq_ok, exists_const, pure_eq_ok,
        Except.ok.injEq, not_lt, gt_iff_lt] at hset
      obtain ⟨hbytes, hbudget, rfl⟩ := hset
      exact { h with target_ne := hbytes, target_le := hbudget }
  | compression algo => exact setCompression_isUsable h hset
  | compressionNamed algo =>
      obtain ⟨parsed, _, hset⟩ := bind_eq_ok.mp hset
      exact setCompression_isUsable h hset
  | maxConcurrentIo ioCount =>
      simp only [set, setMaxConcurrentIo, bind_eq_ok, throwIf_eq_ok, exists_const, pure_eq_ok,
        Except.ok.injEq] at hset
      obtain ⟨hcount, rfl⟩ := hset
      exact { h with concurrency_ne := hcount }
  | cacheEvictionThreshold threshold =>
      simp only [set, setCacheEvictionThreshold, bind_eq_ok, throwIf_eq_ok, exists_const,
        pure_eq_ok, Except.ok.injEq, not_or, not_lt, gt_iff_lt] at hset
      obtain ⟨hthreshold, rfl⟩ := hset
      exact { h with threshold_le := hthreshold }

/-- From a usable policy, any changes that are accepted lead to a usable policy. -/
theorem foldlM_set_isUsable {settings : List Setting} (h : policy.IsUsable)
    (hset : settings.foldlM set policy = .ok policy') : policy'.IsUsable := by
  induction settings generalizing policy with
  | nil =>
      cases hset
      exact h
  | cons setting settings ih =>
      rw [List.foldlM_cons] at hset
      obtain ⟨next, hnext, hset⟩ := bind_eq_ok.mp hset
      exact ih (set_isUsable h hnext) hset

/-! ## The policy of a configuration -/

def makeStoragePolicy (config : Config) : Except Error FullStoragePolicy :=
  match Config.validateConfig config with
  | .error e _ => throw e
  | .ok _ validated => do
      let compression ← CompressionAlgorithm.parse validated.compression
      pure
        { directory := validated.storageDirectory
          compression
          enabled := validated.outOfCoreEnabled
          memoryBudgetBytes := validated.storageMemoryBudgetBytes
          targetChunkSizeBytes := validated.storageTargetChunkSizeBytes
          maxConcurrentIo := validated.storageMaxConcurrentIo }

/-- The checks of a configuration are enough for its policy. -/
theorem validate_makeStoragePolicy {config : Config} (h : makeStoragePolicy config = .ok policy) :
    policy.validate = .ok () := by
  rw [makeStoragePolicy] at h
  cases hvalidated : Config.validateConfig config with
  | error e s =>
      rw [hvalidated] at h
      cases h
  | ok u validated =>
      rw [hvalidated] at h
      obtain ⟨_, haccepted⟩ := Config.validateConfig_eq_ok.mp hvalidated
      obtain ⟨compression, hcompression, hpolicy⟩ := bind_eq_ok.mp h
      cases hpolicy
      apply validate_eq_ok.mpr
      intro henabled
      have hstorage := haccepted.storage
      rw [Config.checkStorage, if_pos henabled] at hstorage
      simp only [bind_eq_ok, throwIf_eq_ok, exists_const, not_or, not_lt, gt_iff_lt] at hstorage
      obtain ⟨hdirectory, hbudget, ⟨htarget, hle⟩, hconcurrency⟩ := hstorage
      have hthreshold : 1 ≤ defaultCacheEvictionThreshold ∧ defaultCacheEvictionThreshold ≤ 100 := by
        decide
      exact ⟨hdirectory, hbudget, htarget, hle, hconcurrency, hthreshold,
        (CompressionAlgorithm.parse_eq_ok.mp hcompression).1⟩

end FullStoragePolicy

end GiveMePi.Storage
