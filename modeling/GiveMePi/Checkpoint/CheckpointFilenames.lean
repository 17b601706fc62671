import GiveMePi.Checkpoint.CheckpointFileInspector
import GiveMePi.Checkpoint.CheckpointQuarantine
import Mathlib.Data.List.Infix

/-! # The names of checkpoint files

A name says which block it holds: the numbers in it are apart from each other by tags that hold no
digit, so no two blocks share a name. A name has one dot, which the names of temporary and of
quarantined files, having more, never have. -/

namespace GiveMePi

/-! ## Decimal numbers in names -/

def IsDigit (byte : UInt8) : Prop :=
  48 ≤ byte.toNat ∧ byte.toNat ≤ 57

instance (byte : UInt8) : Decidable (IsDigit byte) :=
  inferInstanceAs (Decidable (_ ∧ _))

theorem toNat_toUInt8_of_isDigit {c : Char} (h : c.isDigit = true) :
    c.toNat.toUInt8.toNat = c.toNat ∧ 48 ≤ c.toNat ∧ c.toNat ≤ 57 := by
  have hc : 48 ≤ c.toNat ∧ c.toNat ≤ 57 := by
    rw [Char.isDigit, Bool.and_eq_true, decide_eq_true_eq, decide_eq_true_eq] at h
    exact ⟨UInt32.le_iff_toNat_le.mp h.1, UInt32.le_iff_toNat_le.mp h.2⟩
  refine ⟨?_, hc⟩
  rw [Nat.toUInt8_eq, UInt8.toNat_ofNat']
  exact Nat.mod_eq_of_lt (by omega)

theorem isDigit_of_mem_decimal {n : ℕ} {byte : UInt8} (h : byte ∈ decimal n) : IsDigit byte := by
  obtain ⟨c, hc, rfl⟩ := List.mem_map.mp h
  have hdigit := toNat_toUInt8_of_isDigit
    (Nat.isDigit_of_mem_toDigits (by decide) (by decide) hc)
  rw [IsDigit, hdigit.1]
  exact hdigit.2

theorem not_mem_decimal {byte : UInt8} (h : ¬ IsDigit byte) (n : ℕ) : byte ∉ decimal n :=
  fun hmem => h (isDigit_of_mem_decimal hmem)

theorem decimal_ne_nil (n : ℕ) : decimal n ≠ [] := by
  simp [decimal]

/-- The digits as characters again. -/
theorem map_decimal (n : ℕ) :
    (decimal n).map (fun byte => Char.ofNat byte.toNat) = Nat.toDigits 10 n := by
  rw [decimal, List.map_map]
  conv_rhs => rw [← List.map_id (Nat.toDigits 10 n)]
  apply List.map_congr_left
  intro c hc
  have hdigit := toNat_toUInt8_of_isDigit
    (Nat.isDigit_of_mem_toDigits (by decide) (by decide) hc)
  simp only [Function.comp_apply, hdigit.1, Char.ofNat_toNat, id_eq]

theorem decimal_injective : Function.Injective decimal := by
  intro m n h
  have hdigits : Nat.toDigits 10 m = Nat.toDigits 10 n := by
    rw [← map_decimal, ← map_decimal, h]
  rw [← Nat.ofDigitChars_ten_toDigits (n := m), hdigits, Nat.ofDigitChars_ten_toDigits]

/-- A text that does not go on with a digit. -/
def EndsNumber (text : Bytes) : Prop :=
  ∀ byte ∈ text.head?, ¬ IsDigit byte

/-- A number ends where the digits end. -/
theorem decimal_append_inj {m n : ℕ} {left right : Bytes} (hleft : EndsNumber left)
    (hright : EndsNumber right) (h : decimal m ++ left = decimal n ++ right) :
    m = n ∧ left = right := by
  have key : ∀ {first second left right : Bytes}, (∀ byte ∈ first, IsDigit byte) →
      (∀ byte ∈ second, IsDigit byte) → EndsNumber left → EndsNumber right →
      first ++ left = second ++ right → first = second ∧ left = right := by
    intro first
    induction first with
    | nil =>
        intro second left right _ hsecond hleft _ h
        cases second with
        | nil => exact ⟨rfl, h⟩
        | cons byte second =>
            exfalso
            rw [List.nil_append, List.cons_append] at h
            exact hleft byte (by simp [h]) (hsecond byte List.mem_cons_self)
    | cons byte first ih =>
        intro second left right hfirst hsecond hleft hright h
        cases second with
        | nil =>
            exfalso
            rw [List.nil_append, List.cons_append] at h
            exact hright byte (by simp [← h]) (hfirst byte List.mem_cons_self)
        | cons byte' second =>
            rw [List.cons_append, List.cons_append, List.cons.injEq] at h
            have hrest := ih (fun b hb => hfirst b (List.mem_cons_of_mem _ hb))
              (fun b hb => hsecond b (List.mem_cons_of_mem _ hb)) hleft hright h.2
            exact ⟨by rw [h.1, hrest.1], hrest.2⟩
  have hkey := key (fun _ => isDigit_of_mem_decimal) (fun _ => isDigit_of_mem_decimal) hleft hright h
  exact ⟨decimal_injective hkey.1, hkey.2⟩

/-- A tag ends the number before it. -/
theorem endsNumber_append {tag rest : Bytes} {byte : UInt8} (h : tag.head? = some byte)
    (hbyte : ¬ IsDigit byte) : EndsNumber (tag ++ rest) := by
  intro b hb
  rw [List.head?_append, h] at hb
  simp only [Option.some_or, Option.mem_def, Option.some.injEq] at hb
  exact hb ▸ hbyte

/-! ## Dots -/

namespace Path

/-- The number of dots in a name. -/
def dots (filename : Bytes) : ℕ :=
  filename.count 46

theorem dots_append (left right : Bytes) : dots (left ++ right) = dots left + dots right :=
  List.count_append

theorem dots_decimal (n : ℕ) : dots (decimal n) = 0 :=
  List.count_eq_zero_of_not_mem (not_mem_decimal (by decide) n)

theorem contains_of_infix {filename text : Bytes} (h : text <:+: filename) :
    contains filename text = true := by
  obtain ⟨before, after, rfl⟩ := h
  rw [contains, List.any_eq_true]
  refine ⟨text ++ after, ?_, List.isPrefixOf_iff_prefix.mpr (List.prefix_append _ _)⟩
  rw [List.mem_tails, List.append_assoc]
  exact List.suffix_append _ _

/-- A text in a name has no more dots than the name. -/
theorem dots_le_of_contains {filename text : Bytes} (h : contains filename text = true) :
    dots text ≤ dots filename := by
  rw [contains, List.any_eq_true] at h
  obtain ⟨suffix, hsuffix, hstarts⟩ := h
  rw [List.mem_tails] at hsuffix
  rw [List.isPrefixOf_iff_prefix] at hstarts
  exact (hstarts.isInfix.trans hsuffix.isInfix).sublist.count_le 46

theorem extension_append {directory stem suffix : Bytes} (hstem : stem ≠ [])
    (hne : suffix ≠ []) (hsuffix : dots suffix = 0) :
    extension ⟨directory, stem ++ 46 :: suffix⟩ = 46 :: suffix := by
  have hnone : (suffix.zipIdx (stem.length + 1)).filter (fun byte => byte.1 = 46) = [] := by
    rw [List.filter_eq_nil_iff]
    intro byte hbyte
    have hmem : byte.1 ∈ suffix := List.fst_mem_of_mem_zipIdx hbyte
    rw [decide_eq_true_eq]
    intro h
    exact absurd (h ▸ hmem) (List.count_eq_zero.mp hsuffix)
  have hlast : lastDot (stem ++ 46 :: suffix) = some stem.length := by
    rw [lastDot, List.zipIdx_append, List.zipIdx_cons, List.filter_append, List.filter_cons]
    simp [hnone]
  obtain ⟨first, rest, rfl⟩ := List.exists_cons_of_ne_nil hstem
  rw [extension, if_neg, hlast]
  · simp
  · intro h
    have hlength : (first :: rest ++ 46 :: suffix).length ≤ 2 := by
      rcases h with h | h
      · exact (congrArg List.length h).trans_le (by decide)
      · exact (congrArg List.length h).trans_le (by decide)
    have hpos := List.length_pos_of_ne_nil hne
    simp only [List.cons_append, List.length_cons, List.length_append] at hlength
    omega
end Path

/-! ## The names of blocks and manifests -/

namespace Checkpoint

open GiveMePi.Path (dots dots_append dots_decimal)

namespace CheckpointStore

theorem dots_identityFilename {tag : String} (h : dots (ascii tag) = 0) (formatVersion : UInt16)
    (identity : ComputationIdentity) : dots (identityFilename tag formatVersion identity) = 0 := by
  simp only [identityFilename, dots_append, dots_decimal, h]
  decide

theorem dots_blockFilename (identity : ComputationIdentity) (location : BlockLocation) :
    dots (blockFilename identity location) = 1 := by
  simp only [blockFilename, dots_append, dots_decimal,
    dots_identityFilename (show dots (ascii "pqt-v") = 0 by decide)]
  decide

theorem dots_manifestFilename (identity : ComputationIdentity) :
    dots (manifestFilename identity) = 1 := by
  simp only [manifestFilename, dots_append,
    dots_identityFilename (show dots (ascii "manifest-v") = 0 by decide)]
  decide

/-- Equal identity parts of names, with what goes on behind them. -/
theorem identityFilename_append_inj {tag : String} {formatVersion : UInt16}
    {left right : ComputationIdentity} {restLeft restRight : Bytes} (hleft : EndsNumber restLeft)
    (hright : EndsNumber restRight)
    (h : identityFilename tag formatVersion left ++ restLeft =
      identityFilename tag formatVersion right ++ restRight) :
    left = right ∧ restLeft = restRight := by
  simp only [identityFilename, List.append_assoc] at h
  have htag : ∀ {text : String} {rest : Bytes}, (∃ byte, (ascii text).head? = some byte ∧
      ¬ IsDigit byte) → EndsNumber (ascii text ++ rest) :=
    fun ⟨_, hhead, hdigit⟩ => endsNumber_append hhead hdigit
  have h := (decimal_append_inj (htag ⟨45, rfl, by decide⟩) (htag ⟨45, rfl, by decide⟩)
    (List.append_cancel_left h)).2
  obtain ⟨halgorithm, h⟩ := decimal_append_inj (htag ⟨45, rfl, by decide⟩)
    (htag ⟨45, rfl, by decide⟩) (List.append_cancel_left h)
  obtain ⟨harithmetic, h⟩ := decimal_append_inj (htag ⟨45, rfl, by decide⟩)
    (htag ⟨45, rfl, by decide⟩) (List.append_cancel_left h)
  obtain ⟨hformula, h⟩ := decimal_append_inj (htag ⟨45, rfl, by decide⟩)
    (htag ⟨45, rfl, by decide⟩) (List.append_cancel_left h)
  obtain ⟨hrequested, h⟩ := decimal_append_inj (htag ⟨45, rfl, by decide⟩)
    (htag ⟨45, rfl, by decide⟩) (List.append_cancel_left h)
  obtain ⟨hguard, h⟩ := decimal_append_inj (htag ⟨45, rfl, by decide⟩)
    (htag ⟨45, rfl, by decide⟩) (List.append_cancel_left h)
  obtain ⟨hworking, h⟩ := decimal_append_inj (htag ⟨45, rfl, by decide⟩)
    (htag ⟨45, rfl, by decide⟩) (List.append_cancel_left h)
  obtain ⟨hcount, h⟩ := decimal_append_inj hleft hright (List.append_cancel_left h)
  refine ⟨?_, h⟩
  obtain ⟨⟨a⟩, b, c, d, e, f, g⟩ := left
  obtain ⟨⟨a'⟩, b', c', d', e', f', g'⟩ := right
  simp only [UInt16.toNat_inj, UInt32.toNat_inj, UInt64.toNat_inj] at *
  simp [*]

/-- The numbers of a range and a level, with their tags, are of one location only. -/
theorem location_append_inj {left right : BlockLocation} {extension extension' : Bytes}
    (hleft : EndsNumber extension) (hright : EndsNumber extension')
    (h : ascii "-r" ++ (decimal left.start.toNat ++ (ascii "-" ++ (decimal left.stop.toNat ++
        (ascii "-l" ++ (decimal left.treeLevel.toNat ++ extension))))) =
      ascii "-r" ++ (decimal right.start.toNat ++ (ascii "-" ++ (decimal right.stop.toNat ++
        (ascii "-l" ++ (decimal right.treeLevel.toNat ++ extension')))))) :
    left = right := by
  obtain ⟨hstart, h⟩ := decimal_append_inj (endsNumber_append rfl (by decide))
    (endsNumber_append rfl (by decide)) (List.append_cancel_left h)
  obtain ⟨hstop, h⟩ := decimal_append_inj (endsNumber_append rfl (by decide))
    (endsNumber_append rfl (by decide)) (List.append_cancel_left h)
  obtain ⟨hlevel, -⟩ := decimal_append_inj hleft hright (List.append_cancel_left h)
  obtain ⟨start, stop, treeLevel⟩ := left
  obtain ⟨start', stop', treeLevel'⟩ := right
  simp only [UInt32.toNat_inj, UInt64.toNat_inj] at *
  simp [*]

/-- A block file is named after one identity and one location only. -/
theorem blockFilename_inj {left right : ComputationIdentity}
    {locationLeft locationRight : BlockLocation}
    (h : blockFilename left locationLeft = blockFilename right locationRight) :
    left = right ∧ locationLeft = locationRight := by
  have hextension : EndsNumber (ascii ".checkpoint") := fun _ h => by cases h; decide
  simp only [blockFilename, List.append_assoc] at h
  obtain ⟨hidentity, h⟩ := identityFilename_append_inj (endsNumber_append rfl (by decide))
    (endsNumber_append rfl (by decide)) h
  exact ⟨hidentity, location_append_inj hextension hextension h⟩

theorem blockFilename_ne_manifestFilename (left right : ComputationIdentity)
    (location : BlockLocation) : blockFilename left location ≠ manifestFilename right := by
  intro h
  have hhead := congrArg List.head? h
  simp only [blockFilename, manifestFilename, identityFilename, List.append_assoc,
    List.head?_append, show (ascii "pqt-v").head? = some 112 from rfl,
    show (ascii "manifest-v").head? = some 109 from rfl, Option.some_or] at hhead
  exact absurd hhead (by decide)

theorem extension_blockFilename (directory : Bytes) (identity : ComputationIdentity)
    (location : BlockLocation) :
    Path.extension ⟨directory, blockFilename identity location⟩ = ascii ".checkpoint" :=
  @Path.extension_append _ _ (ascii "checkpoint")
    (List.append_ne_nil_of_right_ne_nil _ (decimal_ne_nil _)) (by decide) (by decide)

theorem extension_manifestFilename (directory : Bytes) (identity : ComputationIdentity) :
    Path.extension ⟨directory, manifestFilename identity⟩ = ascii ".manifest" :=
  @Path.extension_append _ _ (ascii "manifest")
    (List.append_ne_nil_of_right_ne_nil _ (decimal_ne_nil _)) (by decide) (by decide)

end CheckpointStore

/-- A name with one dot is not that of a temporary file. -/
theorem CheckpointFileInspector.isTemporary_eq_false {path : Path} (h : dots path.filename = 1) :
    CheckpointFileInspector.isTemporary path = false := by
  rw [Bool.eq_false_iff]
  intro htemp
  have := Path.dots_le_of_contains htemp
  rw [h] at this
  revert this
  decide

theorem AtomicFileCommit.isTemporary_tempPath (destination : Path) (processId sequence : ℕ) :
    CheckpointFileInspector.isTemporary (tempPath destination processId sequence) = true := by
  apply Path.contains_of_infix
  exact ⟨destination.filename, decimal processId ++ ascii "." ++ decimal sequence, by
    simp only [tempPath, List.append_assoc]⟩

theorem AtomicFileCommit.dots_tempPath (destination : Path) (processId sequence : ℕ) :
    dots (tempPath destination processId sequence).filename = dots destination.filename + 3 := by
  simp only [tempPath, dots_append, dots_decimal]
  rfl

theorem CheckpointQuarantine.dots_candidatePath (directory : Bytes) (source : Path)
    (reason : RejectionReason) (processId sequence : ℕ) :
    2 ≤ dots (candidatePath directory source reason processId sequence).filename := by
  simp only [candidatePath, dots_append]
  have h : dots (ascii ".rejected.") = 2 := by decide
  omega

end Checkpoint

end GiveMePi
