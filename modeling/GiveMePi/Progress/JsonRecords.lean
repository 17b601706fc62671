import GiveMePi.Progress.JsonProgressReporter
import Mathlib.Tactic.IntervalCases

/-! # Records of progress as JSON

Every value a reporter writes is a JSON text on one line, but the records leave the brace of the
storage counters open. -/

namespace GiveMePi.Progress

open Library.Json

/-! ## Numbers -/

theorem isDigits_decimal (n : ℕ) : IsDigits (decimal n) :=
  ⟨decimal_ne_nil n, fun _ hmem => isDigit_of_mem_decimal hmem⟩

/-- A positive number does not begin with a zero. -/
theorem head_decimal {n : ℕ} (h : 0 < n) : (decimal n).head? ≠ some 48 := by
  induction n using Nat.strong_induction_on with
  | _ n ih =>
      by_cases hlt : n < 10
      · rw [decimal, Nat.toDigits_of_lt_base hlt]
        interval_cases n <;> decide
      · have hdiv : 0 < n / 10 := by omega
        rw [decimal, Nat.toDigits_of_base_le (by decide) (by omega), List.map_append]
        change (decimal (n / 10) ++ _).head? ≠ _
        rw [List.head?_append_of_ne_nil _ (decimal_ne_nil _)]
        exact ih (n / 10) (by omega) hdiv

theorem isWhole_decimal (n : ℕ) : IsWhole (decimal n) := by
  refine ⟨isDigits_decimal n, ?_⟩
  cases n with
  | zero => exact Or.inl rfl
  | succ n => exact Or.inr (head_decimal (Nat.succ_pos n))

theorem isWhole_take {digits : Bytes} (h : IsWhole digits) (k : ℕ) :
    IsWhole (digits.take (k + 1)) := by
  rcases h with ⟨⟨hne, hdigits⟩, hhead⟩
  cases digits with
  | nil => exact absurd rfl hne
  | cons digit rest =>
      refine ⟨⟨by simp, fun byte hmem => hdigits byte (List.mem_of_mem_take hmem)⟩, ?_⟩
      rcases hhead with hhead | hhead
      · rw [List.cons.injEq] at hhead
        simp [hhead.1, hhead.2]
      · exact Or.inr (by simpa using hhead)

theorem isNumber_of_isWhole {sign whole : Bytes} (hsign : sign = [] ∨ sign = [45])
    (h : IsWhole whole) : IsNumber (sign ++ whole) :=
  ⟨sign, whole, [], [], hsign, h, Or.inl rfl, Or.inl rfl, by simp⟩

theorem isNumber_decimal (n : ℕ) : IsNumber (decimal n) :=
  isNumber_of_isWhole (Or.inl rfl) (isWhole_decimal n)

theorem isNumber_signedDecimal (n : ℤ) : IsNumber (signedDecimal n) := by
  rw [signedDecimal]
  split
  · exact isNumber_of_isWhole (Or.inr rfl) (isWhole_decimal n.natAbs)
  · exact isNumber_decimal n.natAbs

namespace Double

theorem isFraction_fraction {digits : Bytes} (h : ∀ byte ∈ digits, IsDigit byte) :
    IsFraction (fraction digits) := by
  have hkept : ∀ byte ∈ (digits.reverse.dropWhile fun byte => byte = 48).reverse,
      IsDigit byte := by
    intro byte hmem
    have hmem := (List.dropWhile_suffix _).subset (List.mem_reverse.mp hmem)
    exact h byte (List.mem_reverse.mp hmem)
  rw [fraction]
  cases heq : (digits.reverse.dropWhile fun byte => byte = 48).reverse with
  | nil => exact Or.inl rfl
  | cons digit rest =>
      rw [heq] at hkept
      exact Or.inr ⟨digit :: rest, ⟨by simp, hkept⟩, rfl⟩

theorem isExponent_exponentText (exponent : ℤ) : IsExponent (exponentText exponent) := by
  have hdigits : IsDigits ((if exponent.natAbs < 10 then [48] else []) ++
      decimal exponent.natAbs) := by
    refine ⟨by simp [decimal_ne_nil], fun byte hmem => ?_⟩
    rcases List.mem_append.mp hmem with hmem | hmem
    · split at hmem
      · rw [List.mem_singleton.mp hmem]
        decide
      · simp at hmem
    · exact isDigit_of_mem_decimal hmem
  rw [exponentText]
  by_cases hneg : exponent < 0
  · exact Or.inr ⟨101, [45], _, Or.inl rfl, Or.inr (Or.inr rfl), hdigits, by simp [hneg]⟩
  · exact Or.inr ⟨101, [43], _, Or.inl rfl, Or.inr (Or.inl rfl), hdigits, by simp [hneg]⟩

theorem isNumber_general {sign : Bytes} (hsign : sign = [] ∨ sign = [45]) (digits : ℕ)
    (exponent : ℤ) : IsNumber (sign ++ general digits exponent) := by
  have hdigit : ∀ byte ∈ decimal digits, IsDigit byte := fun _ hmem => isDigit_of_mem_decimal hmem
  have hdrop : ∀ k, IsFraction (fraction ((decimal digits).drop k)) :=
    fun k => isFraction_fraction fun byte hmem => hdigit byte (List.mem_of_mem_drop hmem)
  have hsmall : IsFraction (fraction
      (List.replicate ((-exponent).toNat - 1) 48 ++ decimal digits)) := by
    refine isFraction_fraction fun byte hmem => ?_
    rcases List.mem_append.mp hmem with hmem | hmem
    · rw [List.eq_of_mem_replicate hmem]
      decide
    · exact hdigit byte hmem
  have hwhole := isWhole_take (isWhole_decimal digits)
  rw [general]
  split
  · exact ⟨sign, _, _, _, hsign, hwhole 0, hdrop 1, isExponent_exponentText exponent, by simp⟩
  · split
    · exact ⟨sign, [48], _, [], hsign, isWhole_zero, hsmall, Or.inl rfl, by simp⟩
    · exact ⟨sign, _, _, [], hsign, hwhole exponent.toNat, hdrop (exponent.toNat + 1), Or.inl rfl,
        by simp⟩

/-- What is printed for a finite number is a JSON number. -/
theorem isNumber_print (negative : Bool) (mantissa : ℕ) (exponent : ℤ) :
    IsNumber (print negative mantissa exponent) := by
  have hsign : (if negative then [45] else [] : Bytes) = [] ∨
      (if negative then [45] else [] : Bytes) = [45] := by
    cases negative <;> simp
  rw [print]
  dsimp only
  split
  · exact isNumber_of_isWhole hsign isWhole_zero
  · exact isNumber_general hsign _ _

end Double

/-! ## Strings -/

theorem isHexDigit_hexDigit {n : UInt8} (h : n < 16) : IsHexDigit (hexDigit n) := by
  have hall : ∀ i : Fin 16, IsHexDigit (hexDigit (UInt8.ofNat i)) := by decide
  have hlt : n.toNat < 16 := UInt8.lt_iff_toNat_lt.mp h
  have hn := hall ⟨n.toNat, hlt⟩
  rwa [UInt8.ofNat_toNat] at hn

theorem masked_lt (n : UInt8) : n &&& 15 < 16 := by
  have hle : (n &&& 15).toNat ≤ 15 := by
    rw [UInt8.toNat_and]
    exact Nat.and_le_right
  exact UInt8.lt_iff_toNat_lt.mpr (Nat.lt_succ_of_le hle)

/-- Every byte is escaped as it has to be. -/
theorem isChars_escape (character : UInt8) {rest : Bytes} (h : IsChars rest) :
    IsChars (escape character ++ rest) := by
  rw [escape]
  by_cases hquote : character = 34
  · rw [if_pos hquote]
    exact IsChars.escape (by decide) h
  rw [if_neg hquote]
  by_cases hslash : character = 92
  · rw [if_pos hslash]
    exact IsChars.escape (by decide) h
  rw [if_neg hslash]
  iterate 5
    split
    · exact IsChars.escape (by decide) h
  split
  · have hhigh : character >>> 4 &&& 15 < 16 := masked_lt _
    have hlow : character &&& 15 < 16 := masked_lt _
    exact IsChars.unicode (Or.inl (by decide)) (Or.inl (by decide)) (isHexDigit_hexDigit hhigh)
      (isHexDigit_hexDigit hlow) h
  · next hcontrol => exact IsChars.plain ⟨UInt8.not_lt.mp hcontrol, hquote, hslash⟩ h

theorem isString_writeString (value : Bytes) : IsString (writeString value) := by
  have hchars : IsChars (value.flatMap escape) := by
    induction value with
    | nil => exact IsChars.nil
    | cons character rest ih =>
        rw [List.flatMap_cons]
        exact isChars_escape character ih
  exact ⟨value.flatMap escape, hchars, by simp [writeString]⟩

/-! ## Values -/

theorem isInline_writeU64 (value : UInt64) : IsInline (writeU64 value) :=
  IsInline.number (isNumber_decimal value.toNat)

theorem isInline_writeU32 (value : UInt32) : IsInline (writeU32 value) :=
  IsInline.number (isNumber_decimal value.toNat)

theorem isInline_signedDecimal (value : ℤ) : IsInline (signedDecimal value) :=
  IsInline.number (isNumber_signedDecimal value)

theorem isInline_writeString (value : Bytes) : IsInline (writeString value) :=
  IsInline.string (isString_writeString value)

theorem isInline_null : IsInline (ascii "null") :=
  IsInline.null

theorem isInline_writeOptionalDouble (value : Option Double) :
    IsInline (writeOptionalDouble value) := by
  match value with
  | none => exact isInline_null
  | some .nan => exact isInline_null
  | some (.infinity _) => exact isInline_null
  | some (.finite negative mantissa exponent) =>
      exact IsInline.number (Double.isNumber_print negative mantissa exponent)

theorem isInline_writeOptionalDuration (value : Option ℤ) :
    IsInline (writeOptionalDuration value) := by
  cases value with
  | none => exact isInline_null
  | some value => exact isInline_signedDecimal value

theorem isInline_writeMergeLevel (level : Option UInt32) : IsInline (writeMergeLevel level) := by
  cases level with
  | none => exact isInline_null
  | some level => exact isInline_writeU32 level

theorem isInline_writeFailureDetail (detail : Option Bytes) :
    IsInline (writeFailureDetail detail) := by
  cases detail with
  | none => exact isInline_null
  | some detail => exact isInline_writeString detail

/-- A name in quotes. -/
def quoted (text : String) : Bytes :=
  34 :: (ascii text ++ [34])

theorem isString_quoted {text : String} (h : ∀ byte ∈ ascii text, IsPlain byte) :
    IsString (quoted text) := by
  refine ⟨ascii text, ?_, rfl⟩
  generalize ascii text = bytes at h
  induction bytes with
  | nil => exact IsChars.nil
  | cons byte rest ih =>
      rw [List.forall_mem_cons] at h
      exact IsChars.plain h.1 (ih h.2)

theorem isInline_writeOptionalRange (range : Option CheckpointRangeProgress) :
    IsInline (writeOptionalRange range) := by
  cases range with
  | none => exact isInline_null
  | some range =>
      have heq : writeOptionalRange (some range) = object
          [(quoted "start_term", writeU64 range.startTerm),
           (quoted "end_term", writeU64 range.endTerm),
           (quoted "tree_level", writeU32 range.treeLevel)] := by
        simp [writeOptionalRange, opening, closing, name, next, object, joined, quoted]
      rw [heq]
      apply IsInline.object
      simp only [List.forall_mem_cons]
      exact ⟨⟨isString_quoted (by decide), isInline_writeU64 _⟩,
        ⟨isString_quoted (by decide), isInline_writeU64 _⟩,
        ⟨isString_quoted (by decide), isInline_writeU32 _⟩, by simp⟩

namespace JsonProgressReporter

/-! ## Records -/

/-- The storage counters as an object. -/
def storageObject (data : ProgressSnapshotData) : Bytes :=
  object
    [(quoted "writes", object
      [(quoted "queued", writeU64 data.storageQueuedWrites),
       (quoted "active", writeU64 data.storageActiveWrites),
       (quoted "completed", writeU64 data.storageCompletedWrites),
       (quoted "failed", writeU64 data.storageFailedWrites)]),
     (quoted "reads", object
      [(quoted "queued", writeU64 data.storageQueuedReads),
       (quoted "active", writeU64 data.storageActiveReads),
       (quoted "completed", writeU64 data.storageCompletedReads),
       (quoted "failed", writeU64 data.storageFailedReads)])]

/-- The members a record is meant to have. -/
def members (snapshot : ProgressSnapshot) (metrics : ProgressMetrics) (now : ℤ) :
    List (Bytes × Bytes) :=
  let data := snapshot.data
  [(quoted "storage_io", storageObject data),
   (quoted "schema_version", writeU32 snapshot.schemaVersion),
   (quoted "sampled_at", writeString (utcTimestamp now)),
   (quoted "phase", writeString data.phase.toText),
   (quoted "terminal_state", writeString snapshot.terminalState.toText),
   (quoted "target_digits", writeU64 data.targetDigits),
   (quoted "terms", object
    [(quoted "completed", writeU64 data.completedTerms),
     (quoted "total", writeU64 data.totalTerms)]),
   (quoted "checkpoint_blocks", object
    [(quoted "completed", writeU64 data.completedCheckpointBlocks),
     (quoted "total", writeU64 data.totalCheckpointBlocks),
     (quoted "durable", writeU64 data.durableCheckpointBlocks)]),
   (quoted "current_merge_level", writeMergeLevel data.currentMergeLevel),
   (quoted "tasks", object
    [(quoted "active", writeU64 data.activeTasks),
     (quoted "queued", writeU64 data.queuedTasks)]),
   (quoted "elapsed_ns", signedDecimal data.elapsed),
   (quoted "memory_bytes", writeU64 data.memoryBytes),
   (quoted "checkpoint_bytes", writeU64 data.checkpointBytes),
   (quoted "storage", object
    [(quoted "resident_bytes", writeU64 data.storageResidentBytes),
     (quoted "stored_bytes", writeU64 data.storageStoredBytes),
     (quoted "chunk_count", writeU64 data.storageChunkCount)]),
   (quoted "last_validated_checkpoint", writeOptionalRange data.lastValidatedCheckpoint),
   (quoted "last_committed_checkpoint", writeOptionalRange data.lastCommittedCheckpoint),
   (quoted "failure_detail", writeFailureDetail data.failureDetail),
   (quoted "metrics", object
    [(quoted "completion_ratio", writeOptionalDouble metrics.completionRatio),
     (quoted "terms_per_second", writeOptionalDouble metrics.termsPerSecond),
     (quoted "checkpoint_blocks_per_second", writeOptionalDouble metrics.checkpointBlocksPerSecond),
     (quoted "estimated_time_remaining_ns",
      writeOptionalDuration metrics.estimatedTimeRemaining)])]

variable (snapshot : ProgressSnapshot) (metrics : ProgressMetrics) (now : ℤ)

theorem name_eq (text : String) : name text = quoted text ++ [58] := by
  simp [name, quoted]

theorem next_eq (text : String) : next text = 44 :: (quoted text ++ [58]) := by
  rw [next, name_eq]

/-- The counters with both their braces closed. -/
theorem storageCounters_closed (data : ProgressSnapshotData) :
    storageCounters data (closing ++ closing ++ [44]) =
      quoted "storage_io" ++ 58 :: (storageObject data ++ [44]) := by
  unfold storageCounters storageObject
  simp only [name_eq, next_eq, object, joined_singleton, joined_cons_cons, opening, closing,
    List.append_assoc, List.cons_append, List.nil_append]

theorem progressMembers_append (behind : Bytes) :
    progressMembers snapshot now ++ (metricMembers metrics ++ behind) =
      joined (members snapshot metrics now).tail ++ behind := by
  unfold progressMembers metricMembers members
  simp only [List.tail_cons, name_eq, next_eq, object, joined_singleton, joined_cons_cons, opening,
    closing, List.append_assoc, List.cons_append, List.nil_append]

/-- With a second brace behind the counters, a record is its members. -/
theorem recordWith_closed :
    recordWith (closing ++ closing ++ [44]) snapshot metrics now =
      object (members snapshot metrics now) ++ [10] := by
  have hjoined : joined (members snapshot metrics now) = quoted "storage_io" ++
      58 :: storageObject snapshot.data ++ 44 :: joined (members snapshot metrics now).tail := rfl
  rw [recordWith, storageCounters_closed, object, hjoined]
  simp only [List.append_assoc, progressMembers_append, opening, closing, List.cons_append,
    List.nil_append]

theorem isInline_storageObject (data : ProgressSnapshotData) :
    IsInline (storageObject data) := by
  have hcounters : ∀ a b c d : UInt64, IsInline (object
      [(quoted "queued", writeU64 a), (quoted "active", writeU64 b), (quoted "completed", writeU64 c),
       (quoted "failed", writeU64 d)]) := by
    intro a b c d
    apply IsInline.object
    simp only [List.forall_mem_cons]
    exact ⟨⟨isString_quoted (by decide), isInline_writeU64 a⟩,
      ⟨isString_quoted (by decide), isInline_writeU64 b⟩,
      ⟨isString_quoted (by decide), isInline_writeU64 c⟩,
      ⟨isString_quoted (by decide), isInline_writeU64 d⟩, by simp⟩
  apply IsInline.object
  simp only [List.forall_mem_cons]
  exact ⟨⟨isString_quoted (by decide), hcounters _ _ _ _⟩,
    ⟨isString_quoted (by decide), hcounters _ _ _ _⟩, by simp⟩

/-- Every value of a record is a text on one line. -/
theorem isInline_members : IsInline (object (members snapshot metrics now)) := by
  have hcounts : ∀ a b : String, (∀ byte ∈ ascii a, IsPlain byte) →
      (∀ byte ∈ ascii b, IsPlain byte) → ∀ m n : UInt64,
      IsInline (object [(quoted a, writeU64 m), (quoted b, writeU64 n)]) := by
    intro a b ha hb m n
    apply IsInline.object
    simp only [List.forall_mem_cons]
    exact ⟨⟨isString_quoted ha, isInline_writeU64 m⟩, ⟨isString_quoted hb, isInline_writeU64 n⟩,
      by simp⟩
  have hthree : ∀ a b c : String, (∀ byte ∈ ascii a, IsPlain byte) →
      (∀ byte ∈ ascii b, IsPlain byte) → (∀ byte ∈ ascii c, IsPlain byte) → ∀ m n k : UInt64,
      IsInline (object [(quoted a, writeU64 m), (quoted b, writeU64 n), (quoted c, writeU64 k)]) := by
    intro a b c ha hb hc m n k
    apply IsInline.object
    simp only [List.forall_mem_cons]
    exact ⟨⟨isString_quoted ha, isInline_writeU64 m⟩, ⟨isString_quoted hb, isInline_writeU64 n⟩,
      ⟨isString_quoted hc, isInline_writeU64 k⟩, by simp⟩
  have hmetrics : IsInline (object
      [(quoted "completion_ratio", writeOptionalDouble metrics.completionRatio),
       (quoted "terms_per_second", writeOptionalDouble metrics.termsPerSecond),
       (quoted "checkpoint_blocks_per_second", writeOptionalDouble metrics.checkpointBlocksPerSecond),
       (quoted "estimated_time_remaining_ns",
        writeOptionalDuration metrics.estimatedTimeRemaining)]) := by
    apply IsInline.object
    simp only [List.forall_mem_cons]
    exact ⟨⟨isString_quoted (by decide), isInline_writeOptionalDouble _⟩,
      ⟨isString_quoted (by decide), isInline_writeOptionalDouble _⟩,
      ⟨isString_quoted (by decide), isInline_writeOptionalDouble _⟩,
      ⟨isString_quoted (by decide), isInline_writeOptionalDuration _⟩, by simp⟩
  apply IsInline.object
  unfold members
  simp only [List.forall_mem_cons]
  exact ⟨⟨isString_quoted (by decide), isInline_storageObject _⟩,
    ⟨isString_quoted (by decide), isInline_writeU32 _⟩,
    ⟨isString_quoted (by decide), isInline_writeString _⟩,
    ⟨isString_quoted (by decide), isInline_writeString _⟩,
    ⟨isString_quoted (by decide), isInline_writeString _⟩,
    ⟨isString_quoted (by decide), isInline_writeU64 _⟩,
    ⟨isString_quoted (by decide), hcounts _ _ (by decide) (by decide) _ _⟩,
    ⟨isString_quoted (by decide), hthree _ _ _ (by decide) (by decide) (by decide) _ _ _⟩,
    ⟨isString_quoted (by decide), isInline_writeMergeLevel _⟩,
    ⟨isString_quoted (by decide), hcounts _ _ (by decide) (by decide) _ _⟩,
    ⟨isString_quoted (by decide), isInline_signedDecimal _⟩,
    ⟨isString_quoted (by decide), isInline_writeU64 _⟩,
    ⟨isString_quoted (by decide), isInline_writeU64 _⟩,
    ⟨isString_quoted (by decide), hthree _ _ _ (by decide) (by decide) (by decide) _ _ _⟩,
    ⟨isString_quoted (by decide), isInline_writeOptionalRange _⟩,
    ⟨isString_quoted (by decide), isInline_writeOptionalRange _⟩,
    ⟨isString_quoted (by decide), isInline_writeFailureDetail _⟩,
    ⟨isString_quoted (by decide), hmetrics⟩, by simp⟩

/-- With a second brace behind the counters, every record is one object on one line. -/
theorem isRecord_recordWith_closed :
    IsRecord (recordWith (closing ++ closing ++ [44]) snapshot metrics now) := by
  rw [recordWith_closed]
  exact IsInline.isRecord (isInline_members snapshot metrics now)

theorem storageCounters_append (data : ProgressSnapshotData) (behind : Bytes) :
    storageCounters data behind = storageCounters data [] ++ behind := by
  unfold storageCounters
  simp only [List.append_nil]

/-- Up to the counters of the reads, three braces are open. -/
theorem opens_storageCounters (data : ProgressSnapshotData) :
    Opens 3 (opening ++ storageCounters data []) := by
  have hobject : Opens 0 (object [(quoted "storage_io", storageObject data)]) := by
    refine Opens.derives (IsInline.object ?_).derives
    simp only [List.forall_mem_singleton]
    exact ⟨isString_quoted (by decide), isInline_storageObject data⟩
  have hcounters : storageCounters data [] ++ [125, 125] =
      quoted "storage_io" ++ 58 :: storageObject data := by
    have hclosed := storageCounters_closed data
    rw [storageCounters_append] at hclosed
    have hbytes : (closing ++ closing ++ [44] : Bytes) = [125, 125] ++ [44] := rfl
    rw [hbytes, ← List.append_assoc, ← List.cons_append, ← List.append_assoc] at hclosed
    exact List.append_cancel_right hclosed
  have heq : opening ++ storageCounters data [] ++ [125] ++ [125] ++ [125] =
      object [(quoted "storage_io", storageObject data)] := by
    rw [object, joined_singleton, ← hcounters]
    simp [opening]
  rw [← heq] at hobject
  exact hobject.of_closed.of_closed.of_closed

/-- What follows the counters closes one brace more than it opens. -/
theorem opens_rest : Opens (-1)
    ([44] ++ progressMembers snapshot now ++ metricMembers metrics ++ closing ++ [10]) := by
  have hclosed : Opens 0 (recordWith (closing ++ closing ++ [44]) snapshot metrics now) := by
    rw [recordWith_closed]
    exact (Opens.derives (isInline_members snapshot metrics now).derives).append
      (Opens.of_quiet (by decide))
  have hthree := opens_storageCounters snapshot.data
  have hsplit : recordWith (closing ++ closing ++ [44]) snapshot metrics now =
      opening ++ storageCounters snapshot.data [] ++ [125] ++ [125] ++
        ([44] ++ progressMembers snapshot now ++ metricMembers metrics ++ closing ++ [10]) := by
    rw [recordWith, storageCounters_append]
    simp [closing]
  rw [hsplit] at hclosed
  exact ((hthree.append Opens.closeBrace).append Opens.closeBrace).of_append hclosed

/-- A record leaves one brace open. -/
theorem opens_record : Opens 1 (record snapshot metrics now) := by
  have hsplit : record snapshot metrics now = opening ++ storageCounters snapshot.data [] ++ [125] ++
      ([44] ++ progressMembers snapshot now ++ metricMembers metrics ++ closing ++ [10]) := by
    rw [record, recordWith, storageCounters_append]
    simp [closing]
  rw [hsplit]
  exact ((opens_storageCounters snapshot.data).append Opens.closeBrace).append
    (opens_rest snapshot metrics now)

/-- No report appends a record a reader of lines can parse: one brace stays open. -/
theorem report_appends_no_record (content : Bytes) :
    ∃ appended, report snapshot metrics now ⟨content, true⟩ = .ok () ⟨content ++ appended, true⟩ ∧
      ¬ IsRecord appended :=
  ⟨record snapshot metrics now, rfl, (opens_record snapshot metrics now).not_isRecord (by decide)⟩

/-- The snapshot of a run that merges, with every optional value of its phase. -/
def mergingSnapshot : ProgressSnapshot where
  data :=
    { phase := .merging, targetDigits := 1000, totalTerms := 100, completedTerms := 25
      totalCheckpointBlocks := 10, completedCheckpointBlocks := 2, durableCheckpointBlocks := 1
      currentMergeLevel := some 3, activeTasks := 4, queuedTasks := 2, elapsed := 5000000000
      memoryBytes := 4096, checkpointBytes := 2048, storageResidentBytes := 8192
      storageStoredBytes := 16384, storageChunkCount := 3, storageQueuedWrites := 0
      storageActiveWrites := 0, storageCompletedWrites := 0, storageFailedWrites := 0
      storageQueuedReads := 0, storageActiveReads := 0, storageCompletedReads := 0
      storageFailedReads := 0, lastValidatedCheckpoint := some ⟨0, 25, 2⟩
      lastCommittedCheckpoint := some ⟨25, 100, 3⟩, failureDetail := none }
  valid := rfl

def mergingMetrics : ProgressMetrics where
  completionRatio := some (.finite false 1 (-2))
  termsPerSecond := some (.finite false 5 0)
  checkpointBlocksPerSecond := some (.finite false 7205759403792794 (-54))
  estimatedTimeRemaining := some 15000000000

theorem report_mergingSnapshot_unbalanced :
    ¬ ∃ appended, report mergingSnapshot mergingMetrics 0 ⟨[], true⟩ = .ok () ⟨appended, true⟩ ∧
      IsRecord appended := by
  intro hreport
  rcases hreport with ⟨appended, hreport, hrecord⟩
  have heq : record mergingSnapshot mergingMetrics 0 = appended := by
    have hcontent : ([] : Bytes) ++ record mergingSnapshot mergingMetrics 0 = appended := by
      simpa only [report, if_true, EStateM.Result.ok.injEq, Output.mk.injEq, and_true, true_and]
        using hreport
    rwa [List.nil_append] at hcontent
  rw [← heq] at hrecord
  exact (opens_record mergingSnapshot mergingMetrics 0).not_isRecord (by decide) hrecord

end JsonProgressReporter

end GiveMePi.Progress
