import GiveMePi.Verification.DecimalHexDigit
import GiveMePi.Verification.FinalOutputInspector

/-! # The fraction of an output

The digits of an output as one integer: of a text in memory at once, of a file in groups of nine. -/

namespace GiveMePi.Verification

/-- `digit - '0'` -/
def digitValue (digit : UInt8) : ℕ :=
  digit.toNat - 48

/-- The number that decimal digits stand for behind those of a value. -/
def appendDigits (value : ℕ) (digits : Bytes) : ℕ :=
  digits.foldl (fun value digit => 10 * value + digitValue digit) value

theorem appendDigits_append (value : ℕ) (left right : Bytes) :
    appendDigits value (left ++ right) = appendDigits (appendDigits value left) right :=
  List.foldl_append

theorem appendDigits_eq (value : ℕ) (digits : Bytes) :
    appendDigits value digits = value * 10 ^ digits.length + appendDigits 0 digits := by
  induction digits using List.reverseRecOn with
  | nil => simp [appendDigits]
  | append_singleton digits digit ih =>
      rw [appendDigits_append, appendDigits_append, ih, List.length_append, pow_add]
      simp only [appendDigits, List.foldl_cons, List.foldl_nil, List.length_singleton]
      ring

theorem digitValue_lt {digit : UInt8} (h : isDigit digit = true) : digitValue digit < 10 := by
  simp only [isDigit, Bool.and_eq_true, decide_eq_true_eq, UInt8.le_iff_toNat_le] at h
  rw [digitValue]
  exact Nat.lt_of_le_of_lt (Nat.sub_le_sub_right h.2 48) (by decide)

/-- Digits stand for a number with as many digits. -/
theorem appendDigits_lt {digits : Bytes} (h : ∀ digit ∈ digits, isDigit digit = true) :
    appendDigits 0 digits < 10 ^ digits.length := by
  induction digits using List.reverseRecOn with
  | nil => simp [appendDigits]
  | append_singleton digits digit ih =>
      have hdigits := ih fun digit hmem => h digit (List.mem_append_left _ hmem)
      have hdigit := digitValue_lt (h digit (by simp))
      rw [appendDigits_append, List.length_append, pow_add]
      simp only [appendDigits, List.foldl_cons, List.foldl_nil, List.length_singleton] at hdigits ⊢
      omega

theorem quotient_unique {scale left right x y : ℕ} (hx : x < scale) (hy : y < scale)
    (h : left * scale + x = right * scale + y) : left = right := by
  have hscale : 0 < scale := Nat.zero_lt_of_lt hx
  calc left = (left * scale + x) / scale := by
        rw [add_comm, Nat.add_mul_div_right _ _ hscale, Nat.div_eq_of_lt hx, zero_add]
    _ = right := by
        rw [h, add_comm, Nat.add_mul_div_right _ _ hscale, Nat.div_eq_of_lt hy, zero_add]

theorem digitValue_inj {left right : UInt8} (hleft : isDigit left = true)
    (hright : isDigit right = true) (h : digitValue left = digitValue right) : left = right := by
  rw [isDigit, Bool.and_eq_true, decide_eq_true_iff, decide_eq_true_iff, UInt8.le_iff_toNat_le,
    UInt8.le_iff_toNat_le] at hleft hright
  have hlow : (48 : UInt8).toNat = 48 := rfl
  refine UInt8.toNat_inj.mp ?_
  rw [digitValue, digitValue] at h
  omega

/-- Digits of one length are told apart by their number. -/
theorem appendDigits_inj (value : ℕ) {left right : Bytes} (hlength : left.length = right.length)
    (hleft : ∀ digit ∈ left, isDigit digit = true) (hright : ∀ digit ∈ right, isDigit digit = true)
    (h : appendDigits value left = appendDigits value right) : left = right := by
  induction left generalizing right value with
  | nil => exact (List.length_eq_zero_iff.mp hlength.symm).symm
  | cons digit rest ih =>
      cases right with
      | nil => cases hlength
      | cons other others =>
          obtain ⟨hdigit, hrest⟩ := List.forall_mem_cons.mp hleft
          obtain ⟨hother, hothers⟩ := List.forall_mem_cons.mp hright
          have hsame : rest.length = others.length := Nat.succ.inj hlength
          change appendDigits (10 * value + digitValue digit) rest =
            appendDigits (10 * value + digitValue other) others at h
          have hhead : 10 * value + digitValue digit = 10 * value + digitValue other := by
            have hsum := h
            rw [appendDigits_eq, appendDigits_eq (10 * value + digitValue other), hsame] at hsum
            exact quotient_unique (hsame ▸ appendDigits_lt hrest) (appendDigits_lt hothers) hsum
          have heq : digit = other := digitValue_inj hdigit hother (Nat.add_left_cancel hhead)
          subst heq
          rw [ih _ hsame hrest hothers h]

namespace DecimalHexDigitExtractor

/-- The text behind the point, read by GMP. -/
def parseFraction (decimal : CanonicalDecimal) : Except Error ℤ := do
  throwIf ((decimal.fractionalDigits.all isDigit) = false)
    (.invalidArgument "Invalid canonical decimal digits")
  pure (appendDigits 0 decimal.fractionalDigits)

def ofDecimal (decimal : CanonicalDecimal) : Except Error DecimalHexDigitExtractor := do
  let numerator ← parseFraction decimal
  ofNumerator numerator decimal.requestedDigits

/-- The first loop of `appendDecimalChunk`. -/
def chunkValue (chunk : UInt64) : Bytes → Except Error UInt64
  | [] => pure chunk
  | digit :: rest => do
      throwIf (isDigit digit = false) (.runtimeError "Output changed after inspection")
      chunkValue (chunk * 10 + (digit - 48).toUInt64) rest

/-- Its second loop. -/
def chunkScale (digits : Bytes) : UInt64 :=
  digits.foldl (fun scale _ => scale * 10) 1

def appendDecimalChunk (value : ℤ) (digits : Bytes) : Except Error ℤ := do
  let chunk ← chunkValue 0 digits
  pure (value * (chunkScale digits).toNat + chunk.toNat)

def chunkSize : ℕ := 9

/-- The loop over the digits that remain; returns what is behind them. -/
def readChunks (value : ℤ) (left : Bytes) (remaining : UInt64) : Except Error (ℤ × Bytes) := do
  if _h : remaining = 0 then
    pure (value, left)
  else
    let count := min remaining.toNat chunkSize
    throwIf (left.length < count) (.runtimeError "Output ended during decimal conversion")
    let value ← appendDecimalChunk value (left.take count)
    readChunks value (left.drop count) (remaining - UInt64.ofNat count)
termination_by remaining.toNat
decreasing_by
  have hpos : 0 < remaining.toNat :=
    Nat.pos_of_ne_zero fun hzero => _h (UInt64.toNat_inj.mp hzero)
  have hcount : (UInt64.ofNat (min remaining.toNat chunkSize)).toNat =
      min remaining.toNat chunkSize := by
    rw [UInt64.toNat_ofNat']
    exact Nat.mod_eq_of_lt (Nat.lt_of_le_of_lt (Nat.min_le_right _ _) (by decide))
  rw [UInt64.toNat_sub_of_le _ _ (UInt64.le_iff_toNat_le.mpr (by rw [hcount]; omega)), hcount,
    chunkSize]
  omega

/-- The digits of an inspected file, which is opened again. -/
def fromFile (reading : FileReading) (file : InspectedOutputFile) :
    Except Error DecimalHexDigitExtractor := do
  throwIf file.HasInvalidSizes (.invalidArgument "Invalid inspected output metadata")
  throwIf (reading.isOpen = false ∨ reading.bytes.take 2 ≠ ascii "3.")
    (.runtimeError "Output changed after inspection")
  let (numerator, rest) ← readChunks 0 (reading.bytes.drop 2) file.requestedDigits
  throwIf (rest ≠ [10]) (.runtimeError "Output framing changed after inspection")
  ofNumerator numerator file.requestedDigits

/-! ## A file has the fraction of its text -/

/-- The digits of a short group are added up without overflow. -/
theorem chunkValue_eq {digits : Bytes} (hdigits : ∀ digit ∈ digits, isDigit digit = true)
    {chunk : UInt64} {width : ℕ} (hchunk : chunk.toNat < 10 ^ width)
    (hwidth : width + digits.length ≤ chunkSize) :
    ∃ value, chunkValue chunk digits = .ok value ∧
      value.toNat = appendDigits chunk.toNat digits := by
  induction digits generalizing chunk width with
  | nil => exact ⟨chunk, rfl, rfl⟩
  | cons digit rest ih =>
      have hdigit := hdigits digit List.mem_cons_self
      have hlt := digitValue_lt hdigit
      have hwide : 10 ^ (width + 1) ≤ 10 ^ chunkSize :=
        Nat.pow_le_pow_right (by decide) (by rw [List.length_cons] at hwidth; omega)
      have hsub : (digit - 48).toNat = digitValue digit := by
        simp only [isDigit, Bool.and_eq_true, decide_eq_true_eq] at hdigit
        exact UInt8.toNat_sub_of_le _ _ hdigit.1
      have hnext : (chunk * 10 + (digit - 48).toUInt64).toNat =
          10 * chunk.toNat + digitValue digit := by
        rw [pow_succ, chunkSize] at hwide
        rw [UInt64.toNat_add, UInt64.toNat_mul, UInt8.toNat_toUInt64, hsub]
        change (chunk.toNat * 10 % 2 ^ 64 + digitValue digit) % 2 ^ 64 = _
        omega
      have hfits : (chunk * 10 + (digit - 48).toUInt64).toNat < 10 ^ (width + 1) := by
        rw [hnext, pow_succ]
        omega
      obtain ⟨value, hvalue, heq⟩ := ih (fun other hmem => hdigits other (List.mem_cons_of_mem _ hmem))
        hfits (by rw [List.length_cons] at hwidth; omega)
      refine ⟨value, ?_, ?_⟩
      · rw [chunkValue, throwIf_neg (by simp [hdigit]), ok_bind]
        exact hvalue
      · rw [heq, hnext]
        rfl

theorem toNat_chunkScale {digits : Bytes} (hlength : digits.length ≤ chunkSize) :
    (chunkScale digits).toNat = 10 ^ digits.length := by
  induction digits using List.reverseRecOn with
  | nil => rfl
  | append_singleton digits digit ih =>
      rw [List.length_append, List.length_singleton] at hlength ⊢
      have hscale := ih (by omega)
      have hwide : 10 ^ (digits.length + 1) ≤ 10 ^ chunkSize :=
        Nat.pow_le_pow_right (by decide) hlength
      rw [chunkScale] at hscale
      rw [chunkScale, List.foldl_append, List.foldl_cons, List.foldl_nil, UInt64.toNat_mul, hscale]
      change 10 ^ digits.length * 10 % 2 ^ 64 = 10 ^ (digits.length + 1)
      rw [← pow_succ]
      exact Nat.mod_eq_of_lt (Nat.lt_of_le_of_lt hwide (by decide))

/-- A short group of digits goes behind the digits before. -/
theorem appendDecimalChunk_eq {digits : Bytes} (hdigits : ∀ digit ∈ digits, isDigit digit = true)
    (hlength : digits.length ≤ chunkSize) (value : ℕ) :
    appendDecimalChunk value digits = .ok (appendDigits value digits : ℕ) := by
  have hstart : (0 : UInt64).toNat < 10 ^ 0 := by decide
  obtain ⟨chunk, hchunk, hvalue⟩ := chunkValue_eq hdigits hstart (by omega)
  rw [appendDecimalChunk, hchunk, ok_bind, pure_eq_ok, toNat_chunkScale hlength, hvalue,
    appendDigits_eq value]
  push_cast
  rfl

/-- A pass takes a group of the digits that remain, and not the empty one. -/
theorem readChunks_step {digits : Bytes}
    (hdigits : ∀ digit ∈ digits, isDigit digit = true) {remaining : UInt64}
    (hremaining : digits.length = remaining.toNat) (hmore : remaining ≠ 0) (value : ℕ)
    (rest : Bytes) :
    ∃ count, 0 < count ∧ count ≤ digits.length ∧
      (remaining - UInt64.ofNat count).toNat = remaining.toNat - count ∧
      readChunks value (digits ++ rest) remaining =
        readChunks (appendDigits value (digits.take count) : ℕ) (digits.drop count ++ rest)
          (remaining - UInt64.ofNat count) := by
  have hpos : 0 < remaining.toNat :=
    Nat.pos_of_ne_zero fun hzero => hmore (UInt64.toNat_inj.mp hzero)
  obtain ⟨count, hcount⟩ : ∃ count, count = min remaining.toNat chunkSize := ⟨_, rfl⟩
  have hsome : 0 < count := by rw [hcount, chunkSize]; omega
  have hle : count ≤ digits.length := by omega
  have hword : (UInt64.ofNat count).toNat = count := by
    have := remaining.toNat_lt
    exact UInt64.toNat_ofNat_of_lt (by rw [UInt64.size]; omega)
  have hchunk := @appendDecimalChunk_eq (digits.take count)
    (fun digit hmem => hdigits digit (List.mem_of_mem_take hmem))
    (by rw [List.length_take, hcount]; omega) value
  refine ⟨count, hsome, hle, ?_, ?_⟩
  · rw [UInt64.toNat_sub_of_le _ _ (by rw [UInt64.le_iff_toNat_le, hword]; omega), hword]
  · rw [readChunks, dif_neg hmore]
    simp only [← hcount]
    rw [throwIf_neg (by rw [List.length_append]; omega), ok_bind,
      List.take_append_of_le_length hle, hchunk, ok_bind, List.drop_append_of_le_length hle]

/-- The groups make up the digits, and what is behind them is left. -/
theorem readChunks_eq {digits : Bytes} (hdigits : ∀ digit ∈ digits, isDigit digit = true)
    {remaining : UInt64} (hremaining : digits.length = remaining.toNat) (value : ℕ) (rest : Bytes) :
    readChunks value (digits ++ rest) remaining = .ok ((appendDigits value digits : ℕ), rest) := by
  induction hlength : digits.length using Nat.strongRecOn generalizing digits remaining value with
  | ind length ih =>
      by_cases hmore : remaining = 0
      · have hnil : digits = [] := by
          rw [← List.length_eq_zero_iff, hremaining, hmore]
          rfl
        rw [readChunks, dif_pos hmore, hnil]
        rfl
      · obtain ⟨count, hsome, hle, hleft, hstep⟩ :=
          readChunks_step hdigits hremaining hmore value rest
        have hrest : (digits.drop count).length = digits.length - count := List.length_drop
        rw [hstep, ih (digits.drop count).length (by omega)
          (fun digit hmem => hdigits digit (List.mem_of_mem_drop hmem)) (by omega) _ rfl,
          ← appendDigits_append, List.take_append_drop]

/-- An output file has the fraction of its text. -/
theorem fromFile_eq_ofDecimal {reading : FileReading} {requestedDigits : UInt64} {canonical : Bytes}
    (hpos : requestedDigits ≠ 0)
    (h : FinalOutputInspector.IsOutputFile reading requestedDigits canonical) :
    fromFile reading ⟨requestedDigits + 2 + 1, requestedDigits + 2, requestedDigits⟩ =
      ofDecimal ⟨canonical, requestedDigits, h.isCanonical⟩ := by
  have hdigits := h.isCanonical.digits_drop
  have hlength : (canonical.drop 2).length = requestedDigits.toNat := by
    rw [List.length_drop, h.isCanonical.length_eq]
    omega
  have hbytes : reading.bytes = ascii "3." ++ (canonical.drop 2 ++ [10]) := by
    rw [h.bytes, ← List.append_assoc, ← h.isCanonical.eq_append]
  have hread := readChunks_eq hdigits hlength 0 [10]
  rw [Nat.cast_zero] at hread
  rw [fromFile, throwIf_neg (InspectedOutputFile.not_hasInvalidSizes hpos h.fits), ok_bind,
    throwIf_neg (by rw [hbytes, h.isOpen]; simp [ascii]), ok_bind, hbytes]
  change (readChunks 0 (canonical.drop 2 ++ [10]) requestedDigits >>= _) = _
  rw [hread, ok_bind]
  dsimp only
  rw [throwIf_neg (by simp), ok_bind, ofDecimal, parseFraction,
    throwIf_neg (by simpa [CanonicalDecimal.fractionalDigits] using hdigits), ok_bind, pure_eq_ok,
    ok_bind]
  rfl

/-- The groups are taken from the digits that remain, and nothing else. -/
theorem rest_of_readChunks {value numerator : ℤ} {left rest : Bytes} {remaining : UInt64}
    (h : readChunks value left remaining = .ok (numerator, rest)) :
    left.length = remaining.toNat + rest.length := by
  induction hlength : remaining.toNat using Nat.strongRecOn generalizing value left remaining with
  | ind length ih =>
      rw [readChunks] at h
      by_cases hmore : remaining = 0
      · rw [dif_pos hmore, pure_eq_ok, Except.ok.injEq, Prod.mk.injEq] at h
        rw [← hlength, hmore, ← h.2]
        exact (Nat.zero_add _).symm
      have hpos : 0 < remaining.toNat :=
        Nat.pos_of_ne_zero fun hzero => hmore (UInt64.toNat_inj.mp hzero)
      obtain ⟨count, hcount⟩ : ∃ count, count = min remaining.toNat chunkSize := ⟨_, rfl⟩
      simp only [dif_neg hmore, ← hcount, bind_eq_ok, throwIf_eq_ok, not_lt] at h
      obtain ⟨-, hle, chunk, -, h⟩ := h
      have hsome : 0 < count := by rw [hcount, chunkSize]; omega
      have hword : (UInt64.ofNat count).toNat = count := by
        have := remaining.toNat_lt
        exact UInt64.toNat_ofNat_of_lt' (by rw [UInt64.size]; omega)
      have hleft : (remaining - UInt64.ofNat count).toNat = remaining.toNat - count := by
        rw [UInt64.toNat_sub_of_le _ _ (by rw [UInt64.le_iff_toNat_le, hword]; omega), hword]
      have hrest := ih _ (by omega) h rfl
      rw [hleft, List.length_drop] at hrest
      omega

/-- A file whose fraction is read is read to its newline. -/
theorem length_of_fromFile {reading : FileReading} {file : InspectedOutputFile}
    {extractor : DecimalHexDigitExtractor} (h : fromFile reading file = .ok extractor) :
    reading.isOpen = true ∧ reading.bytes.length = file.requestedDigits.toNat + 3 := by
  simp only [fromFile, bind_eq_ok, throwIf_eq_ok, not_or, not_not, Bool.not_eq_false] at h
  obtain ⟨-, -, -, ⟨hopen, hstart⟩, ⟨numerator, rest⟩, hchunks, -, hrest, -⟩ := h
  dsimp only at hrest
  have hlength := rest_of_readChunks hchunks
  have htwo := congrArg List.length hstart
  rw [hrest, List.length_drop, List.length_singleton] at hlength
  rw [List.length_take] at htwo
  change min 2 _ = 2 at htwo
  exact ⟨hopen, by omega⟩

/-- The fraction of a canonical text. -/
theorem ofDecimal_eq_ok (decimal : CanonicalDecimal) (hpos : decimal.requestedDigits ≠ 0) :
    ∃ extractor, ofDecimal decimal = .ok extractor ∧
      extractor.numerator = appendDigits 0 decimal.fractionalDigits ∧
      extractor.requestedDigits = decimal.requestedDigits := by
  have hdigits := decimal.canonical.digits_drop
  obtain ⟨extractor, hextractor⟩ : ∃ extractor : DecimalHexDigitExtractor,
      extractor.numerator = appendDigits 0 decimal.fractionalDigits ∧
        extractor.requestedDigits = decimal.requestedDigits :=
    ⟨⟨appendDigits 0 decimal.fractionalDigits, _, decimal.requestedDigits, hpos, rfl⟩, rfl, rfl⟩
  refine ⟨extractor, ?_, hextractor⟩
  rw [ofDecimal, parseFraction,
    throwIf_neg (by simpa [CanonicalDecimal.fractionalDigits] using hdigits), ok_bind, pure_eq_ok,
    ok_bind]
  exact ofNumerator_eq_ok.mpr hextractor

end DecimalHexDigitExtractor

end GiveMePi.Verification
