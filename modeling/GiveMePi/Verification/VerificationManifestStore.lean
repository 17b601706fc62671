import GiveMePi.Checkpoint.AtomicFileCommit
import GiveMePi.Verification.PublishableRuns

/-! # The files of a verification

The file of a manifest, and an output file that is opened for one check after the other, where every
reading may break off. -/

namespace GiveMePi.Verification

/-! ## Openings of a file -/

/-- How a file is delivered when it is opened: whether it opens, and behind how many bytes reading
fails, if it does. -/
structure Delivery where
  isOpen : Bool
  breaksBehind : Option ℕ
deriving DecidableEq, Repr

namespace Delivery

def whole : Delivery :=
  ⟨true, none⟩

/-- The bytes that are read of a content. -/
def read (delivery : Delivery) (content : Bytes) : Bytes :=
  match delivery.breaksBehind with
  | none => content
  | some count => content.take count

/-- Whether reading to the end fails. -/
def breaks (delivery : Delivery) (content : Bytes) : Bool :=
  delivery.breaksBehind.any fun count => count ≤ content.length

theorem read_eq_take (delivery : Delivery) (content : Bytes) :
    ∃ count, delivery.read content = content.take count ∧
      (delivery.breaks content = false → delivery.read content = content) := by
  rw [read, breaks]
  cases delivery.breaksBehind with
  | none => exact ⟨content.length, (List.take_length).symm, fun _ => rfl⟩
  | some count =>
      refine ⟨count, rfl, fun hwhole => List.take_of_length_le ?_⟩
      simpa using Nat.le_of_lt (by simpa using hwhole)

theorem length_read_lt (delivery : Delivery) {content : Bytes} (h : content.length < 2 ^ 64) :
    (delivery.read content).length < 2 ^ 64 := by
  obtain ⟨count, hread, -⟩ := delivery.read_eq_take content
  rw [hread, List.length_take]
  exact (Nat.min_le_right _ _).trans_lt h

theorem length_nil_lt : ([] : Bytes).length < 2 ^ 64 := by
  decide

/-- A file that does not open. -/
def closed : FileReading :=
  ⟨false, [], false, length_nil_lt⟩

/-- What a stream delivers of a file, if there is one. -/
def reading (delivery : Delivery) : Option Bytes → FileReading
  | none => closed
  | some content =>
      if h : content.length < 2 ^ 64 then
        ⟨delivery.isOpen, delivery.read content, delivery.breaks content,
          delivery.length_read_lt h⟩
      else closed

/-- What is delivered of a file is a start of its content, and all of it where the file opens and
reading does not fail. -/
theorem bytes_reading (delivery : Delivery) (content : Bytes) :
    ∃ count, (delivery.reading (some content)).bytes = content.take count ∧
      ((delivery.reading (some content)).isOpen = true →
        (delivery.reading (some content)).failed = false →
          (delivery.reading (some content)).bytes = content) := by
  rw [reading]
  split
  · obtain ⟨count, htake, hwhole⟩ := delivery.read_eq_take content
    exact ⟨count, htake, fun _ => hwhole⟩
  · exact ⟨0, rfl, fun hopen => absurd hopen (by simp [closed])⟩

theorem reading_whole {content : Bytes} (h : content.length < 2 ^ 64) :
    Delivery.whole.reading (some content) = ⟨true, content, false, h⟩ :=
  dif_pos h

end Delivery

/-- The openings of an output file. -/
structure Deliveries where
  inspection : Delivery
  knownDigits : Delivery
  hash : Delivery
  fraction : Delivery
deriving DecidableEq, Repr

namespace Deliveries

def whole : Deliveries :=
  ⟨.whole, .whole, .whole, .whole⟩

def readings (deliveries : Deliveries) (content : Option Bytes) :
    FinalVerifier.FileReadings where
  inspection := deliveries.inspection.reading content
  knownDigits := deliveries.knownDigits.reading content
  hash := deliveries.hash.reading content
  fraction := deliveries.fraction.reading content

end Deliveries

/-! ## The file of a manifest -/

namespace VerificationManifestStore

def maximumFileSize : ℕ := 4096

def save (destination : Path) (manifest : VerificationManifest) : Action World Unit := do
  let bytes ← VerificationManifestCodec.encode manifest
  Checkpoint.AtomicFileCommit.write destination bytes

def load (delivery : Delivery) : Option Bytes → Except Error VerificationManifest
  | none => throw (.runtimeError "Cannot open verification manifest")
  | some content => do
      throwIf (delivery.isOpen = false) (.runtimeError "Cannot open verification manifest")
      throwIf (content.length > maximumFileSize)
        (.runtimeError "Invalid verification manifest file size")
      throwIf ((delivery.read content).length < content.length)
        (.runtimeError "Cannot read verification manifest")
      VerificationManifestCodec.decode content

/-- Every manifest that is encoded is small enough to be read. -/
theorem length_manifestBytes_le {manifest : VerificationManifest} (h : manifest.validate = .ok ()) :
    (VerificationManifestCodec.manifestBytes manifest).length ≤ maximumFileSize := by
  obtain ⟨hfilename, hsamples⟩ := VerificationManifestCodec.IsAccepted.lengths h
  simp only [VerificationManifestCodec.manifestBytes, VerificationManifestCodec.afterChecksum,
    List.length_append, VerificationManifestCodec.length_beforeChecksum,
    VerificationManifestCodec.length_flatMap_sampleBytes, length_appendU32,
    VerificationManifestCodec.checksumOffset, VerificationManifestCodec.sampleSize, maximumFileSize]
  rw [maximumBBPSampleCount] at hsamples
  omega

/-- What a manifest is encoded to is loaded as the manifest. -/
theorem load_of_encode {manifest : VerificationManifest} {bytes : Bytes}
    (h : VerificationManifestCodec.encode manifest = .ok bytes) :
    load .whole (some bytes) = .ok manifest ∧ bytes.length ≤ maximumFileSize := by
  obtain ⟨rfl, haccepted⟩ := VerificationManifestCodec.encode_eq_ok_iff.mp h
  have hlength := length_manifestBytes_le haccepted
  refine ⟨?_, hlength⟩
  rw [load, throwIf_neg (by simp [Delivery.whole]), ok_bind, throwIf_neg (not_lt.mpr hlength),
    ok_bind, throwIf_neg (by simp [Delivery.whole, Delivery.read]), ok_bind]
  exact VerificationManifestCodec.decode_eq_ok_iff.mpr ⟨rfl, haccepted⟩

end VerificationManifestStore

/-! ## Texts that pass -/

namespace FinalVerifier

open FinalOutputInspector (IsOutputFile)

/-- A text that the verification passes: its first digits are the known ones, and at every selected
position the series resolves to the digit that the text has there. -/
structure IsVerified (series : BBPSeries) (identity : VerificationIdentity)
    (policy : BBPSamplePolicy) (text : Bytes) : Prop where
  valid : identity.IsValid
  canonical : IsCanonicalDecimal identity.requestedDigits text
  length_lt : text.length < 2 ^ 61
  known : (KnownDigitsVerifier.verify ⟨text, identity.requestedDigits, canonical⟩).matched = true
  agrees : ∃ extractor,
    DecimalHexDigitExtractor.ofDecimal ⟨text, identity.requestedDigits, canonical⟩ =
      .ok extractor ∧ ∀ position ∈ policy.select identity, Agrees series extractor position

section

variable {series : BBPSeries} {identity : VerificationIdentity} {policy : BBPSamplePolicy}
  {text : Bytes}

/-- The file of a text that passes, as a reading to its end finds it. -/
theorem IsVerified.isOutputFile (h : IsVerified series identity policy text) :
    IsOutputFile (Delivery.whole.reading (some (text ++ [10]))) identity.requestedDigits text := by
  have hlength : (text ++ [10]).length < 2 ^ 64 := by
    rw [List.length_append, List.length_singleton]
    exact Nat.lt_of_lt_of_le (Nat.add_lt_add_right h.length_lt 1) (by decide)
  rw [Delivery.reading_whole hlength]
  exact ⟨rfl, rfl, h.canonical, rfl⟩

/-- The file of such a text passes, and its digest is that of the text. -/
theorem IsVerified.passes (h : IsVerified series identity policy text) :
    ∃ run digest,
      verifyFile series (Deliveries.whole.readings (some (text ++ [10]))) identity policy =
        .ok run ∧ run.report.status = .passed ∧ run.sha256 = some digest ∧
      SHA256.hash text = .ok digest := by
  have hfile := h.isOutputFile
  have hfits := not_lt_of_not_three hfile.fits
  obtain ⟨extractor, hextractor, hagrees⟩ := h.agrees
  obtain ⟨run, digest, made, bbp, hrun, hdigest, hmade, -, hcheck, -, hchecks, hsha256, -⟩ :=
    @verifyMemory_eq_ok series identity policy h.valid hfits text h.canonical h.length_lt
  obtain rfl : extractor = made := Except.ok.inj (hextractor.symm.trans hmade)
  have hknown : (KnownDigitsVerifier.verify
      ⟨text, identity.requestedDigits, h.canonical⟩).verification.status = .passed :=
    of_decide_eq_true h.known
  refine ⟨run, digest, (verifyFile_eq_verifyMemory h.valid.requestedDigits hfile h.length_lt).trans
    hrun, FinalVerificationReport.status_eq_passed ?_ ?_, hsha256, hdigest⟩
  · rw [hchecks]
    simp only [List.forall_mem_cons, hknown, hcheck.passes_iff.mpr hagrees]
    simp [VerificationCheckResult.passed]
  · rw [hchecks]
    exact ⟨_, List.mem_cons_self, rfl⟩

/-! ### Readings of a text -/

variable {reading : FileReading} {count : ℕ}

/-- What is hashed of a delivered text is the text. -/
theorem hash_of_delivered (hbytes : reading.bytes = (text ++ [10]).take count)
    {file : InspectedOutputFile} (hsize : file.canonicalByteCount.toNat = text.length)
    {digest : SHA256Digest} (h : (hashCheck reading file).1 = some digest) :
    SHA256.hash text = .ok digest ∧ text.length < 2 ^ 61 := by
  rw [hashCheck] at h
  split at h
  · next made hstart =>
      obtain rfl : made = digest := Option.some.inj h
      obtain ⟨hle, hlt, hhash⟩ := SHA256.hash_of_hashFileStart hstart
      rw [hsize, hbytes] at hhash hle
      rw [List.length_take] at hle
      rw [List.take_take, min_eq_left (by omega), List.take_left' rfl] at hhash
      exact ⟨hhash, hsize ▸ hlt⟩
  · cases h

variable {output : FileReading} (houtput : IsOutputFile output identity.requestedDigits text)
  {file : InspectedOutputFile} (hfile : file = ⟨identity.requestedDigits + 2 + 1,
    identity.requestedDigits + 2, identity.requestedDigits⟩)
include houtput hfile

/-- What is compared of a delivered text is its start. -/
theorem known_of_delivered (hpos : identity.requestedDigits ≠ 0)
    (hbytes : reading.bytes = (text ++ [10]).take count)
    (h : (KnownDigitsVerifier.verifyFile reading file).matched = true) :
    (KnownDigitsVerifier.verify
      ⟨text, identity.requestedDigits, houtput.isCanonical⟩).matched = true := by
  obtain ⟨hopen, hstart⟩ := KnownDigitsVerifier.start_of_verifyFile h
  rw [hbytes, List.length_take] at hstart
  have hsame : KnownDigitsVerifier.verifyFile output file =
      KnownDigitsVerifier.verifyFile reading file := by
    refine KnownDigitsVerifier.verifyFile_congr (houtput.isOpen.trans hopen.symm) ?_
    rw [houtput.bytes, hbytes, List.take_take, min_eq_left (hstart.trans (Nat.min_le_left _ _))]
  rw [← KnownDigitsVerifier.verifyFile_of_outputFile hpos houtput, ← hfile, hsame, h]

/-- What is extracted from a delivered text is its fraction. -/
theorem agrees_of_delivered (hpos : identity.requestedDigits ≠ 0)
    (hbytes : reading.bytes = (text ++ [10]).take count)
    (h : (fileSamples series reading file identity policy).check.status = .passed ∨
      (fileSamples series reading file identity policy).check.status = .skipped) :
    ∃ extractor, DecimalHexDigitExtractor.ofDecimal
        ⟨text, identity.requestedDigits, houtput.isCanonical⟩ = .ok extractor ∧
      ∀ position ∈ policy.select identity, Agrees series extractor position := by
  cases hextractor : DecimalHexDigitExtractor.fromFile reading file with
  | error e =>
      rw [fileSamples, hextractor, error_bind] at h
      simp [VerificationCheckResult.failed] at h
  | ok extractor =>
      obtain ⟨bbp, hbbp, hcheck⟩ := verifySamples_eq_ok series extractor identity policy
      rw [fileSamples_of_ok hextractor hbbp] at h
      obtain ⟨hopen, hend⟩ := DecimalHexDigitExtractor.length_of_fromFile hextractor
      have hwhole : reading.bytes = output.bytes := by
        have hlength : (text ++ [10]).length = identity.requestedDigits.toNat + 3 := by
          rw [List.length_append, houtput.isCanonical.length_eq, List.length_singleton]
        have hdigits : file.requestedDigits = identity.requestedDigits := by rw [hfile]
        rw [hbytes, List.length_take, hdigits, hlength] at hend
        rw [houtput.bytes, hbytes, List.take_of_length_le (by omega)]
      refine ⟨extractor, ?_, hcheck.passes_iff.mp h⟩
      rw [← DecimalHexDigitExtractor.fromFile_eq_ofDecimal hpos houtput, ← hfile, ← hextractor]
      simp only [DecimalHexDigitExtractor.fromFile, hopen, houtput.isOpen, hwhole]

omit houtput hfile

/-- A file of a text with a newline that passes, however it was delivered, is that of a text that
passes, and has its digest. -/
theorem isVerified_of_passed {deliveries : Deliveries} {run : FinalVerificationRun}
    (h : verifyFile series (deliveries.readings (some (text ++ [10]))) identity policy = .ok run)
    (hpassed : run.report.status = .passed) :
    IsVerified series identity policy text ∧ ∃ digest, run.sha256 = some digest ∧
      SHA256.hash text = .ok digest := by
  obtain ⟨hidentity, ⟨canonical, hinspected⟩, file, hfile, -, hmatched, hsha256, ⟨digest, hdigest⟩,
    -, hbbp⟩ := checks_of_passed h hpassed
  have hvalid : identity.IsValid := hidentity ▸ run.report.valid
  have hpos := hvalid.requestedDigits
  obtain ⟨-, -, hwhole⟩ := deliveries.inspection.bytes_reading (text ++ [10])
  have hbytes := (hwhole hinspected.isOpen hinspected.failed).symm.trans hinspected.bytes
  obtain rfl : text = canonical := List.append_cancel_right hbytes
  have hsize : file.canonicalByteCount.toNat = text.length := by
    rw [hfile, hinspected.isCanonical.length_eq]
    exact (FinalOutputInspector.toNat_sizes hinspected.fits).1
  obtain ⟨_, hhashed, -⟩ := deliveries.hash.bytes_reading (text ++ [10])
  obtain ⟨_, hcompared, -⟩ := deliveries.knownDigits.bytes_reading (text ++ [10])
  obtain ⟨_, hextracted, -⟩ := deliveries.fraction.bytes_reading (text ++ [10])
  obtain ⟨hhash, hlimit⟩ := hash_of_delivered hhashed hsize hdigest
  exact ⟨⟨hvalid, hinspected.isCanonical, hlimit,
    known_of_delivered hinspected hfile hpos hcompared hmatched,
    agrees_of_delivered hinspected hfile hpos hextracted hbbp⟩, digest, hsha256.trans hdigest, hhash⟩

end

end FinalVerifier

end GiveMePi.Verification
