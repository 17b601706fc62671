import GiveMePi.Config.CommandLine

/-! # Command lines one after the other

A command line behind another one overrides what it sets and keeps the rest. -/

namespace GiveMePi

open Library

/-- The options of two command lines, field by field: the later one wins where it sets a field. -/
def CommandLineOptions.overriddenBy (options later : CommandLineOptions) : CommandLineOptions where
  helpRequested := later.helpRequested || options.helpRequested
  digits := later.digits.or options.digits
  threads := later.threads.or options.threads
  outputFile := later.outputFile.or options.outputFile
  checkpointEnabled := later.checkpointEnabled.or options.checkpointEnabled
  checkpointIntervalSeconds :=
    later.checkpointIntervalSeconds.or options.checkpointIntervalSeconds
  checkpointDirectory := later.checkpointDirectory.or options.checkpointDirectory
  checkpointQuarantineDirectory :=
    later.checkpointQuarantineDirectory.or options.checkpointQuarantineDirectory
  resumeEnabled := later.resumeEnabled.or options.resumeEnabled
  progressEnabled := later.progressEnabled.or options.progressEnabled
  progressIntervalMs := later.progressIntervalMs.or options.progressIntervalMs
  progressFormat := later.progressFormat.or options.progressFormat
  storageDirectory := later.storageDirectory.or options.storageDirectory
  storageMemoryBudgetBytes := later.storageMemoryBudgetBytes.or options.storageMemoryBudgetBytes
  storageTargetChunkSizeBytes :=
    later.storageTargetChunkSizeBytes.or options.storageTargetChunkSizeBytes
  storageMaxConcurrentIo := later.storageMaxConcurrentIo.or options.storageMaxConcurrentIo
  verificationEnabled := later.verificationEnabled.or options.verificationEnabled
  bbpSampleCount := later.bbpSampleCount.or options.bbpSampleCount
  verificationManifestFile := later.verificationManifestFile.or options.verificationManifestFile

namespace CommandLine

@[simp] theorem overriddenBy_empty (options : CommandLineOptions) :
    options.overriddenBy {} = options := rfl

/-! ## Arguments -/

/-- An update that sets a field wins over what stands in front of it. -/
def IsOverriding (update : CommandLineOptions → CommandLineOptions) : Prop :=
  ∀ options later : CommandLineOptions,
    update (options.overriddenBy later) = options.overriddenBy (update later)

namespace Argument

/-- All that an argument does is to set fields. -/
def Overrides : Argument → Prop
  | .help | .unknown => True
  | .flag update => IsOverriding update
  | .value update => ∀ value update', update value = .ok update' → IsOverriding update'

theorem overrides_text {update : Bytes → CommandLineOptions → CommandLineOptions}
    (h : ∀ value, IsOverriding (update value)) : (text update).Overrides := by
  intro value update' hvalue
  cases hvalue
  exact h value

/-- A parsed value sets its field. -/
theorem overrides_parsed {α : Type} {parse : Bytes → Except CommandLineUsageError α}
    {update : α → CommandLineOptions → CommandLineOptions}
    (h : ∀ value, IsOverriding (update value)) :
    (value fun text => do
      let parsed ← parse text
      pure (update parsed)).Overrides := by
  intro text update' hvalue
  rcases bind_eq_ok.mp hvalue with ⟨parsed, -, hupdate⟩
  cases hupdate
  exact h parsed

theorem overrides_uint64 {option : Bytes}
    {update : UInt64 → CommandLineOptions → CommandLineOptions}
    (h : ∀ value, IsOverriding (update value)) : (uint64 option update).Overrides :=
  overrides_parsed fun parsed => h (.ofNat parsed)

theorem overrides_uint32 {option : Bytes}
    {update : UInt32 → CommandLineOptions → CommandLineOptions}
    (h : ∀ value, IsOverriding (update value)) : (uint32 option update).Overrides :=
  overrides_parsed fun parsed => h (.ofNat parsed)

theorem overrides_format {option : Bytes}
    {update : ProgressFormat → CommandLineOptions → CommandLineOptions}
    (h : ∀ value, IsOverriding (update value)) : (format option update).Overrides :=
  overrides_parsed h

theorem overrides_ite {condition : Prop} [Decidable condition] {argument other : Argument}
    (h : argument.Overrides) (hother : other.Overrides) :
    (if condition then argument else other).Overrides := by
  split
  · exact h
  · exact hother

/-- Every branch of the parser sets one field. -/
theorem overrides_ofText (arg : Bytes) : (ofText arg).Overrides := by
  unfold ofText
  repeat' apply overrides_ite
  all_goals first
    | exact trivial
    | exact fun _ _ => rfl
    | exact overrides_text fun _ _ _ => rfl
    | exact overrides_uint64 fun _ _ _ => rfl
    | exact overrides_uint32 fun _ _ _ => rfl
    | exact overrides_format fun _ _ _ => rfl

theorem overrides_of_eq {arg : Bytes} {argument : Argument} (h : ofText arg = argument) :
    argument.Overrides :=
  h ▸ overrides_ofText arg

end Argument

/-! ## Parsing -/

open Argument in
/-- Options in front of the loop's own stay behind what the loop sets. -/
theorem parseFrom_overriddenBy (options later : CommandLineOptions) (args : List Bytes) :
    parseFrom (options.overriddenBy later) args =
      (parseFrom later args).map options.overriddenBy := by
  fun_induction parseFrom later args with
  | case1 later => rfl
  | case2 later arg rest harg =>
      rw [parseFrom, harg]
      rfl
  | case3 later arg rest update harg ih =>
      have hupdate : IsOverriding update := overrides_of_eq harg
      simp only [parseFrom, harg, hupdate options later, ih]
  | case4 later arg update harg =>
      rw [parseFrom, harg]
      rfl
  | case5 later arg update harg value rest ih =>
      have hupdate : ∀ value update', update value = .ok update' → IsOverriding update' :=
        overrides_of_eq harg
      simp only [parseFrom, harg]
      cases hvalue : update value with
      | error error => rfl
      | ok update' => simp only [ok_bind, hupdate value update' hvalue options later, ih]
  | case6 later arg rest harg =>
      rw [parseFrom, harg]
      rfl

/-- A command line that does not ask for help is parsed to its end, and the loop goes on behind
it. -/
theorem parseFrom_append {options parsed : CommandLineOptions} {args : List Bytes}
    (h : parseFrom options args = .ok parsed) (hhelp : parsed.helpRequested = false)
    (more : List Bytes) : parseFrom options (args ++ more) = parseFrom parsed more := by
  fun_induction parseFrom options args with
  | case1 options =>
      cases h
      rfl
  | case2 options arg rest harg =>
      cases h
      cases hhelp
  | case3 options arg rest update harg ih =>
      simp only [List.cons_append, parseFrom, harg]
      exact ih h
  | case4 options arg update harg => cases h
  | case5 options arg update harg value rest ih =>
      rcases bind_eq_ok.mp h with ⟨update', hvalue, hrest⟩
      simp only [List.cons_append, parseFrom, harg, hvalue, ok_bind]
      exact ih update' hrest
  | case6 options arg rest harg => cases h

theorem parse_append {options : CommandLineOptions} {args : List Bytes}
    (h : parse args = .ok options) (hhelp : options.helpRequested = false) (more : List Bytes) :
    parse (args ++ more) = (parse more).map options.overriddenBy := by
  rw [parse, parseFrom_append h hhelp, parse, ← parseFrom_overriddenBy, overriddenBy_empty]

/-- The arguments behind a request for help are not read. -/
theorem parse_help {flag : Bytes} (h : flag = ascii "-h" ∨ flag = ascii "--help")
    (more : List Bytes) : parse (flag :: more) = .ok { helpRequested := true } := by
  rw [parse, parseFrom, Argument.ofText, if_pos h]
  rfl

/-! ## Configurations -/

@[simp] theorem assign_overriddenBy (options later : CommandLineOptions) (config : Config) :
    assign (options.overriddenBy later) config = assign later (assign options config) := by
  simp [assign, CommandLineOptions.overriddenBy]

@[simp] theorem assign_nameCompression (options : CommandLineOptions) (config : Config) :
    assign options config.nameCompression = (assign options config).nameCompression := rfl

theorem applyOverrides_eq_ok {options : CommandLineOptions} {config config' : Config} {u : Unit} :
    applyOverrides options config = .ok u config' ↔
      config' = (assign options config).nameCompression ∧ config'.IsAccepted := by
  rw [applyOverrides, Program.modify_bind, Config.validateConfig_eq_ok]

/-- Both command lines at once and one after the other leave the same configuration. -/
theorem applyOverrides_overriddenBy {options later : CommandLineOptions} {config middle : Config}
    {u : Unit} (h : applyOverrides options config = .ok u middle) (config' : Config) :
    applyOverrides (options.overriddenBy later) config = .ok u config' ↔
      applyOverrides later middle = .ok u config' := by
  rcases applyOverrides_eq_ok.mp h with ⟨rfl, -⟩
  rw [applyOverrides_eq_ok, applyOverrides_eq_ok, assign_overriddenBy, assign_nameCompression,
    Config.nameCompression_nameCompression]

/-- Arguments behind a command line override what it sets, and applying both at once is applying
one after the other. -/
theorem command_lines_compose {first : List Bytes} {options : CommandLineOptions}
    (h : parse first = .ok options) (hhelp : options.helpRequested = false) (second : List Bytes) :
    parse (first ++ second) = (parse second).map options.overriddenBy ∧
    (∀ flag more, flag = ascii "-h" ∨ flag = ascii "--help" →
      parse (first ++ flag :: more) = .ok { options with helpRequested := true }) ∧
    ∀ later both, parse second = .ok later → parse (first ++ second) = .ok both →
      ∀ config middle config', applyOverrides options config = .ok () middle →
        (applyOverrides both config = .ok () config' ↔
          applyOverrides later middle = .ok () config') := by
  refine ⟨parse_append h hhelp second, ?help, ?apply⟩
  case help =>
    intro flag more hflag
    rw [parse_append h hhelp, parse_help hflag]
    rfl
  case apply =>
    intro later both hlater hboth config middle config' hmiddle
    rw [parse_append h hhelp, hlater] at hboth
    cases hboth
    exact applyOverrides_overriddenBy hmiddle config'

theorem command_lines_compose_digits :
    parse [ascii "--digits", ascii "100", ascii "--checkpoint"] =
        .ok { digits := some 100, checkpointEnabled := some true } ∧
      parse ([ascii "--digits", ascii "100", ascii "--checkpoint"] ++
          [ascii "--digits", ascii "200"]) =
        (parse [ascii "--digits", ascii "200"]).map
          (CommandLineOptions.overriddenBy
            { digits := some 100, checkpointEnabled := some true }) := by
  have h : parse [ascii "--digits", ascii "100", ascii "--checkpoint"] =
      .ok { digits := some 100, checkpointEnabled := some true } := by decide
  exact ⟨h, (command_lines_compose h rfl _).1⟩

end CommandLine

end GiveMePi
