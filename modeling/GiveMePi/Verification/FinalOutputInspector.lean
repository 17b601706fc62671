import GiveMePi.Verification.CanonicalDecimal

/-! # Inspection of an output file

The file is read through a buffer, and each byte is checked against its offset. -/

namespace GiveMePi.Verification

/-- What a stream that opens a file delivers; sizes of files have 64 bits. -/
structure FileReading where
  isOpen : Bool
  bytes : Bytes
  /-- The bytes end with an error and not with the file. -/
  failed : Bool
  length_lt : bytes.length < 2 ^ 64

/-- An accepted file; its path is left out. -/
structure InspectedOutputFile where
  fileSize : UInt64
  canonicalByteCount : UInt64
  requestedDigits : UInt64
deriving DecidableEq, Repr

namespace InspectedOutputFile

/-- What the functions that open an inspected file again check of it first. -/
def HasInvalidSizes (file : InspectedOutputFile) : Prop :=
  file.requestedDigits = 0 ∨ file.requestedDigits > uint64Max - 3 ∨
    file.canonicalByteCount ≠ file.requestedDigits + 2 ∨
    file.fileSize ≠ file.canonicalByteCount + 1

instance (file : InspectedOutputFile) : Decidable file.HasInvalidSizes :=
  inferInstanceAs (Decidable (_ ∨ _))

theorem not_hasInvalidSizes {requestedDigits : UInt64} (hpos : requestedDigits ≠ 0)
    (hfits : ¬ requestedDigits > uint64Max - 3) :
    ¬ HasInvalidSizes ⟨requestedDigits + 2 + 1, requestedDigits + 2, requestedDigits⟩ := by
  rintro (h | h | h | h)
  · exact hpos h
  · exact hfits h
  · exact h rfl
  · exact h rfl

end InspectedOutputFile

structure OutputFileInspection where
  verification : VerificationCheckResult
  file : Option InspectedOutputFile
deriving DecidableEq, Repr

namespace OutputFileInspection

def accepted (inspection : OutputFileInspection) : Bool :=
  inspection.verification.status = .passed && inspection.file.isSome

def rejection (reason : VerificationReason) (detail : String) (offset : Option UInt64) :
    OutputFileInspection :=
  ⟨.failed .outputStructure reason detail offset, none⟩

end OutputFileInspection

/-- The size of the buffers that files are read through. -/
def fileBufferSize : ℕ := 64 * 1024

namespace FinalOutputInspector

open OutputFileInspection (rejection)

/-- The body of the loop over a buffer; returns the next offset. -/
def checkByte (canonicalBytes expectedFileSize offset : UInt64) (value : UInt8) :
    Except OutputFileInspection UInt64 :=
  if offset = 0 ∧ value ≠ 51 then
    throw (rejection .invalidOutputPrefix "Canonical output file must begin with 3." (some offset))
  else if offset = 1 ∧ value ≠ 46 then
    throw (rejection .invalidOutputPrefix "Canonical output file must begin with 3." (some offset))
  else if offset ≥ 2 ∧ offset < canonicalBytes ∧ isDigit value = false then
    throw (rejection .invalidOutputCharacter "Canonical output file contains a non-ASCII digit"
      (some offset))
  else if offset = canonicalBytes ∧ value ≠ 10 then
    throw (rejection .invalidOutputCharacter "Canonical output file must end with one newline"
      (some offset))
  else if offset ≥ expectedFileSize then
    throw (rejection .trailingData "Canonical output file contains trailing data" (some offset))
  else
    pure (offset + 1)

/-- The loop over the buffers; one that is not filled is the last. -/
def readBuffers (canonicalBytes expectedFileSize offset : UInt64) (left : Bytes) :
    Except OutputFileInspection UInt64 := do
  let buffer := left.take fileBufferSize
  let offset ← buffer.foldlM (checkByte canonicalBytes expectedFileSize) offset
  if _h : buffer.length < fileBufferSize then
    pure offset
  else
    readBuffers canonicalBytes expectedFileSize offset (left.drop fileBufferSize)
termination_by left.length
decreasing_by
  rw [List.length_take, fileBufferSize] at _h
  rw [List.length_drop, fileBufferSize]
  omega

def inspectFile (reading : FileReading) (requestedDigits : UInt64) : OutputFileInspection :=
  if requestedDigits = 0 then
    rejection .operationFailed "Requested digit count must be greater than zero" none
  else if requestedDigits > uint64Max - 3 then
    rejection .invalidOutputLength "Expected output file length overflows uint64" none
  else if reading.isOpen = false then
    rejection .fileReadFailed "Cannot open final output file" none
  else
    let canonicalBytes := requestedDigits + 2
    let expectedFileSize := canonicalBytes + 1
    match readBuffers canonicalBytes expectedFileSize 0 reading.bytes with
    | .error inspection => inspection
    | .ok offset =>
        if reading.failed then
          rejection .fileReadFailed "Failed while reading final output file" (some offset)
        else if offset ≠ expectedFileSize then
          rejection .invalidOutputLength "Canonical output file has an unexpected length"
            (some offset)
        else
          ⟨.passed .outputStructure, some ⟨offset, canonicalBytes, requestedDigits⟩⟩

/-! ## One byte after the other -/

variable {canonicalBytes expectedFileSize offset : UInt64}

/-- The buffers make no difference. -/
theorem readBuffers_eq (offset : UInt64) (left : Bytes) :
    readBuffers canonicalBytes expectedFileSize offset left =
      left.foldlM (checkByte canonicalBytes expectedFileSize) offset := by
  induction hlength : left.length using Nat.strongRecOn generalizing left offset with
  | ind length ih =>
      rw [readBuffers]
      by_cases hlast : (left.take fileBufferSize).length < fileBufferSize
      · rw [List.length_take] at hlast
        rw [List.take_of_length_le (by omega)]
        simp only [dif_pos (show left.length < fileBufferSize by omega)]
        exact bind_pure _
      · have hrest : (left.drop fileBufferSize).length < length := by
          rw [List.length_take, fileBufferSize] at hlast
          rw [List.length_drop, fileBufferSize]
          omega
        simp only [dif_neg hlast, fun offset => ih _ hrest offset (left.drop fileBufferSize) rfl]
        rw [← List.foldlM_append, List.take_append_drop]

/-- Only a rejection ends the loop early. -/
theorem inspection_of_error {bytes : Bytes} {inspection : OutputFileInspection}
    (h : readBuffers canonicalBytes expectedFileSize offset bytes = .error inspection) :
    ∃ reason detail offset, inspection = rejection reason detail offset := by
  rw [readBuffers_eq] at h
  induction bytes generalizing offset with
  | nil => cases h
  | cons value rest ih =>
      rw [List.foldlM_cons] at h
      cases hbyte : checkByte canonicalBytes expectedFileSize offset value with
      | ok next =>
          rw [hbyte] at h
          exact ih h
      | error other =>
          rw [hbyte] at h
          cases h
          rw [checkByte] at hbyte
          split_ifs at hbyte <;> cases hbyte <;> exact ⟨_, _, _, rfl⟩

/-- What is checked of the byte at an offset of an accepted file. -/
structure IsExpected (canonicalBytes : ℕ) (offset : ℕ) (value : UInt8) : Prop where
  three : offset = 0 → value = 51
  point : offset = 1 → value = 46
  digit : 2 ≤ offset → offset < canonicalBytes → isDigit value = true
  newline : offset = canonicalBytes → value = 10

theorem checkByte_eq_ok (hsize : expectedFileSize.toNat = canonicalBytes.toNat + 1)
    {value : UInt8} {next : UInt64} :
    checkByte canonicalBytes expectedFileSize offset value = .ok next ↔
      IsExpected canonicalBytes.toNat offset.toNat value ∧ offset.toNat < expectedFileSize.toNat ∧
        next.toNat = offset.toNat + 1 := by
  have hbound := expectedFileSize.toNat_lt
  have hzero : offset = 0 ↔ offset.toNat = 0 := by rw [← UInt64.toNat_inj]; rfl
  have hone : offset = 1 ↔ offset.toNat = 1 := by rw [← UInt64.toNat_inj]; rfl
  have htwo : offset ≥ 2 ↔ 2 ≤ offset.toNat := UInt64.le_iff_toNat_le
  have hend : offset = canonicalBytes ↔ offset.toNat = canonicalBytes.toNat :=
    UInt64.toNat_inj.symm
  rw [checkByte]
  simp only [hzero, hone, htwo, hend, UInt64.lt_iff_toNat_lt, ge_iff_le, UInt64.le_iff_toNat_le]
  split_ifs with hthree hpoint hdigit hnewline hlast
  · refine ⟨by simp, fun h => absurd (h.1.three hthree.1) hthree.2⟩
  · refine ⟨by simp, fun h => absurd (h.1.point hpoint.1) hpoint.2⟩
  · refine ⟨by simp, fun h => ?_⟩
    rw [h.1.digit hdigit.1 hdigit.2.1] at hdigit
    exact absurd hdigit.2.2 (by decide)
  · refine ⟨by simp, fun h => absurd (h.1.newline hnewline.1) hnewline.2⟩
  · exact ⟨by simp, fun h => absurd h.2.1 (not_lt.mpr hlast)⟩
  · have hnext : (offset + 1).toNat = offset.toNat + 1 := toNat_add_of_lt (by change _ + 1 < _; omega)
    constructor
    · intro h
      obtain rfl : offset + 1 = next := Except.ok.inj h
      refine ⟨⟨fun h => ?_, fun h => ?_, fun h h' => ?_, fun h => ?_⟩, not_le.mp hlast, hnext⟩
      · exact not_not.mp fun hne => hthree ⟨h, hne⟩
      · exact not_not.mp fun hne => hpoint ⟨h, hne⟩
      · exact Bool.not_eq_false _ ▸ fun hne => hdigit ⟨h, h', hne⟩
      · exact not_not.mp fun hne => hnewline ⟨h, hne⟩
    · rintro ⟨-, -, h⟩
      exact congrArg Except.ok (UInt64.toNat_inj.mp (hnext.trans h.symm))

/-- The whole file: every byte is the expected one, and the offset counts them. -/
theorem foldlM_checkByte_eq_ok (hsize : expectedFileSize.toNat = canonicalBytes.toNat + 1)
    {bytes : Bytes} {last : UInt64} (hoffset : offset.toNat ≤ expectedFileSize.toNat) :
    bytes.foldlM (checkByte canonicalBytes expectedFileSize) offset = .ok last ↔
      (∀ index value, bytes[index]? = some value →
        IsExpected canonicalBytes.toNat (offset.toNat + index) value) ∧
      last.toNat = offset.toNat + bytes.length ∧ last.toNat ≤ expectedFileSize.toNat := by
  induction bytes generalizing offset with
  | nil =>
      rw [List.foldlM_nil, pure_eq_ok, Except.ok.injEq]
      constructor
      · rintro rfl
        exact ⟨by simp, rfl, hoffset⟩
      · rintro ⟨-, h, -⟩
        exact UInt64.toNat_inj.mp h.symm
  | cons value rest ih =>
      rw [List.foldlM_cons, bind_eq_ok]
      constructor
      · rintro ⟨next, hbyte, hrest⟩
        obtain ⟨hexpected, hlt, hnext⟩ := (checkByte_eq_ok hsize).mp hbyte
        obtain ⟨hall, hlast, hle⟩ := (ih (by omega)).mp hrest
        refine ⟨fun index other hindex => ?_, by rw [hlast, hnext, List.length_cons]; omega, hle⟩
        cases index with
        | zero =>
            obtain rfl : value = other := by simpa using hindex
            exact hexpected
        | succ index =>
            have := hall index other (by simpa using hindex)
            rwa [hnext, Nat.add_assoc, Nat.add_comm 1] at this
      · rintro ⟨hall, hlast, hle⟩
        rw [List.length_cons] at hlast
        have hbound := expectedFileSize.toNat_lt
        have hnext : (offset + 1).toNat = offset.toNat + 1 :=
          toNat_add_of_lt (by change _ + 1 < _; omega)
        refine ⟨offset + 1, (checkByte_eq_ok hsize).mpr ⟨hall 0 value rfl, by omega, hnext⟩,
          (ih (by omega)).mpr ⟨fun index other hindex => ?_, by omega, hle⟩⟩
        have := hall (index + 1) other (by simpa using hindex)
        rwa [hnext, Nat.add_assoc, Nat.add_comm 1]

/-- A file with every byte as expected and of the expected size is a canonical text with one newline
behind it. -/
theorem forall_isExpected_iff {requestedDigits : UInt64} {bytes : Bytes} :
    (∀ index value, bytes[index]? = some value →
        IsExpected (requestedDigits.toNat + 2) index value) ∧
      bytes.length = requestedDigits.toNat + 3 ↔
      ∃ canonical, IsCanonicalDecimal requestedDigits canonical ∧ bytes = canonical ++ [10] := by
  constructor
  · rintro ⟨hall, hlength⟩
    match bytes, hall, hlength with
    | three :: point :: rest, hall, hlength =>
        obtain rfl := (hall 0 three rfl).three rfl
        obtain rfl := (hall 1 point rfl).point rfl
        simp only [List.length_cons] at hlength
        rcases List.eq_nil_or_concat rest with rfl | ⟨digits, last, rfl⟩
        · simp at hlength
        · rw [List.concat_eq_append, List.length_append, List.length_singleton] at hlength
          have hlast : last = 10 := by
            refine (hall (requestedDigits.toNat + 2) last ?_).newline rfl
            rw [← show digits.length = requestedDigits.toNat by omega]
            simp
          refine ⟨51 :: 46 :: digits, ⟨digits, rfl, by omega, fun digit hdigit => ?_⟩, by
            simp [hlast]⟩
          obtain ⟨index, hindex, rfl⟩ := List.getElem_of_mem hdigit
          refine (hall (index + 2) digits[index] ?_).digit (by omega) (by omega)
          simp [List.getElem?_append_left hindex, hindex]
  · rintro ⟨canonical, ⟨digits, rfl, hlength, hdigits⟩, rfl⟩
    refine ⟨fun index value hindex => ⟨?_, ?_, fun hlow hhigh => ?_, ?_⟩, ?_⟩
    · rintro rfl
      exact (Option.some.inj hindex).symm
    · rintro rfl
      exact (Option.some.inj hindex).symm
    · obtain ⟨place, rfl⟩ := Nat.exists_eq_add_of_le' hlow
      refine hdigits value ?_
      have hplace : place < digits.length := by omega
      rw [List.append_assoc, List.getElem?_append_right (by exact hlow),
        List.getElem?_append_left (by exact hplace)] at hindex
      exact List.mem_of_getElem? hindex
    · rintro rfl
      rw [List.getElem?_append_right (by simp [hlength, ascii])] at hindex
      simpa [hlength, ascii, eq_comm] using hindex
    · simp [hlength, ascii]

/-! ## What is accepted -/

section Accepted

variable {requestedDigits : UInt64} {reading : FileReading}

theorem toNat_sizes (hfits : ¬ requestedDigits > uint64Max - 3) :
    (requestedDigits + 2).toNat = requestedDigits.toNat + 2 ∧
      (requestedDigits + 2 + 1).toNat = (requestedDigits + 2).toNat + 1 := by
  rw [UInt64.not_lt, UInt64.le_iff_toNat_le] at hfits
  have hmax : (uint64Max - 3).toNat = 2 ^ 64 - 4 := rfl
  have htwo : (requestedDigits + 2).toNat = requestedDigits.toNat + 2 :=
    toNat_add_of_lt (by change _ + 2 < _; omega)
  exact ⟨htwo, toNat_add_of_lt (by change _ + 1 < _; omega)⟩

/-- The offset reaches the expected size exactly at the end of an accepted file. -/
theorem readBuffers_eq_size (hfits : ¬ requestedDigits > uint64Max - 3) {bytes : Bytes} :
    readBuffers (requestedDigits + 2) (requestedDigits + 2 + 1) 0 bytes =
        .ok (requestedDigits + 2 + 1) ↔
      ∃ canonical, IsCanonicalDecimal requestedDigits canonical ∧ bytes = canonical ++ [10] := by
  obtain ⟨htwo, hsize⟩ := toNat_sizes hfits
  rw [readBuffers_eq, foldlM_checkByte_eq_ok hsize (Nat.zero_le _), ← forall_isExpected_iff, hsize,
    htwo]
  constructor
  · rintro ⟨hall, hlast, -⟩
    exact ⟨fun index value hindex => Nat.zero_add index ▸ hall index value hindex,
      by simpa using hlast.symm⟩
  · rintro ⟨hall, hlength⟩
    exact ⟨fun index value hindex => (Nat.zero_add index).symm ▸ hall index value hindex,
      by simpa using hlength.symm, le_rfl⟩

/-- A file that is read without an error and has a canonical text with a newline behind it. -/
structure IsOutputFile (reading : FileReading) (requestedDigits : UInt64) (canonical : Bytes) :
    Prop where
  isOpen : reading.isOpen = true
  failed : reading.failed = false
  isCanonical : IsCanonicalDecimal requestedDigits canonical
  bytes : reading.bytes = canonical ++ [10]

/-- Its length fits the checked sums. -/
theorem IsOutputFile.fits {canonical : Bytes} (h : IsOutputFile reading requestedDigits canonical) :
    ¬ requestedDigits > uint64Max - 3 := by
  have hlength := reading.length_lt
  rw [h.bytes, List.length_append, h.isCanonical.length_eq, List.length_singleton] at hlength
  have hmax : (uint64Max - 3).toNat = 2 ^ 64 - 4 := rfl
  rw [UInt64.not_lt, UInt64.le_iff_toNat_le]
  omega

theorem inspectFile_of_outputFile (hpos : requestedDigits ≠ 0) {canonical : Bytes}
    (h : IsOutputFile reading requestedDigits canonical) :
    inspectFile reading requestedDigits = ⟨.passed .outputStructure,
      some ⟨requestedDigits + 2 + 1, requestedDigits + 2, requestedDigits⟩⟩ := by
  have hread := (readBuffers_eq_size h.fits).mpr ⟨canonical, h.isCanonical, h.bytes⟩
  rw [inspectFile, if_neg hpos, if_neg h.fits, if_neg (by simp [h.isOpen])]
  simp only [hread, h.failed, Bool.false_eq_true, if_false, ne_eq, not_true_eq_false]

/-- Every other file is rejected. -/
theorem inspectFile_of_not
    (h : ¬ (requestedDigits ≠ 0 ∧ ∃ canonical, IsOutputFile reading requestedDigits canonical)) :
    ∃ reason detail offset,
      inspectFile reading requestedDigits = rejection reason detail offset := by
  rw [inspectFile]
  split
  · exact ⟨_, _, _, rfl⟩
  · next hpos =>
      split
      · exact ⟨_, _, _, rfl⟩
      · next hfits =>
          split
          · exact ⟨_, _, _, rfl⟩
          · next hopen =>
              dsimp only
              split
              · next inspection hread => exact inspection_of_error hread
              · next offset hread =>
                  split
                  · exact ⟨_, _, _, rfl⟩
                  · next hfailed =>
                      split
                      · exact ⟨_, _, _, rfl⟩
                      · next hsize =>
                          rw [not_not.mp hsize, readBuffers_eq_size hfits] at hread
                          obtain ⟨canonical, hcanonical, hbytes⟩ := hread
                          exact absurd ⟨hpos, canonical, by simpa using hopen, by simpa using hfailed,
                            hcanonical, hbytes⟩ h

end Accepted

end FinalOutputInspector

end GiveMePi.Verification
