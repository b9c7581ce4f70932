import CodeTint.Command.Run
import CodeTint.Proofs.Alakon.Patterns
import CodeTint.Proofs.Json.Records

/-!
# Runs of the program

A run fails for what the command line, the configuration file or the source is, and for nothing
else, and then it has written nothing. If it succeeds, what it writes depends on settings each of
which comes from the command line, or else from the configuration file, or else is the initial one
(`Config.IsSettled`). All of this is put together in `runProgram_ofBytes`.
-/

namespace CodeTint

/-! ## Settings -/

/-- A setting is what the command line says, or else what the configuration gives, or else
`initial`. -/
def Decoder.Settles {α : Type} (decoder : Decoder α) (initial : α) (said : Option α)
    (given : Option Draft) (a : α) : Prop :=
  match said with
  | some b => a = b
  | none => decoder.Reads initial given a

/-- Where the settings come from: the arguments, and the value in the configuration file if there is
one. -/
structure Config.IsSettled (arguments : Arguments) (file : Option Draft) (config : Config) :
    Prop where
  preset : Preset.decoder.Settles .classic arguments.preset
    ((file.bind (·.field? "grammar" 0)).bind (·.field? "preset" 0)) config.grammar.preset
  format : OutputFormat.decoder.Settles .ansi arguments.format
    ((file.bind (·.field? "output" 1)).bind (·.field? "format" 0)) config.output.format
  hostShape : (Decoder.option HostShape.decoder).Settles none (arguments.dumpShape.map some)
    ((file.bind (·.field? "output" 1)).bind (·.field? "host_shape" 1)) config.output.hostShape
  theme : Theme.decoder.Reads .initial (file.bind (·.field? "theme" 2)) config.theme

section Settings

open Decoder (keeps_field reads_of_record)

variable {file : Option Draft} {config : Config}

theorem Config.reads_grammar (h : decoder.Reads .initial file config) :
    GrammarConfig.decoder.Reads Config.initial.grammar (file.bind (·.field? "grammar" 0))
      config.grammar :=
  h.field? fun _ _ _ => reads_of_record Config.grammar [] (fun _ _ => rfl) (by simp [keeps_field])

theorem Config.reads_output (h : decoder.Reads .initial file config) :
    OutputConfig.decoder.Reads Config.initial.output (file.bind (·.field? "output" 1))
      config.output :=
  h.field? fun _ _ _ => reads_of_record Config.output [_] (fun _ _ => rfl) (by simp [keeps_field])

theorem Config.reads_theme (h : decoder.Reads .initial file config) :
    Theme.decoder.Reads .initial (file.bind (·.field? "theme" 2)) config.theme :=
  h.field? fun _ _ _ => reads_of_record Config.theme [_, _] (fun _ _ => rfl) (by simp [keeps_field])

/-- A configuration that is read, or is the initial one, is what the settings are once the arguments
are applied to it. -/
theorem Config.isSettled_apply (arguments : Arguments) (h : decoder.Reads .initial file config) :
    (arguments.apply config).IsSettled arguments file := by
  obtain ⟨path, format, preset, dumpGrammar, dumpShape, input⟩ := arguments
  have htheme := reads_theme h
  refine ⟨?_, ?_, ?_, htheme⟩
  · cases preset with
    | some preset => rfl
    | none =>
        exact (reads_grammar h).field? fun _ _ _ =>
          reads_of_record GrammarConfig.preset [] (fun _ _ => rfl) (by simp)
  · cases format with
    | some format => rfl
    | none =>
        exact (reads_output h).field? fun _ _ _ =>
          reads_of_record OutputConfig.format [] (fun _ _ => rfl) (by simp [keeps_field])
  · cases dumpShape with
    | some shape => rfl
    | none =>
        exact (reads_output h).field? fun _ _ _ =>
          reads_of_record OutputConfig.hostShape [_] (fun _ _ => rfl) (by simp [keeps_field])

end Settings

theorem Decoder.exists_of_ofText_eq_ok {α : Type} {decoder : Decoder α} {text : String} {a : α}
    (h : decoder.ofText text = .ok a) :
    ∃ reading, decoder reading (DraftText.ofString text).value = .ok a := by
  rw [ofText] at h
  cases hread : decoder ⟨textNesting, false⟩ (DraftText.ofString text).value with
  | error fault => simp only [hread] at h; cases h
  | ok b =>
      simp only [hread] at h
      split at h
      · cases h
      · exact ⟨_, hread.trans h⟩

/-! ## Files and the standard input -/

/-- The surroundings in which files and the standard input hold the given bytes; none for what
cannot be read. What is written is kept, behind what was written before. -/
def Surroundings.ofBytes (files : String → Option ByteArray) (input : Option ByteArray) :
    Surroundings (StateM String) where
  fileText path := return (files path).bind String.fromUTF8?
  standardInput := return input.bind String.fromUTF8?
  write text := modify (· ++ text)

/-- How the program ends, and what it has written by then. -/
def programEnd (arguments : List String) (files : String → Option ByteArray)
    (input : Option ByteArray) : Outcome × String :=
  Id.run ((runProgram arguments (.ofBytes files input)).run "")

namespace Arguments

variable {arguments : Arguments} {files files' : String → Option ByteArray}
  {input input' : Option ByteArray} {config : Config}

/-- The text of the configuration file, if one is named, can be read and is a text. -/
def configText (arguments : Arguments) (files : String → Option ByteArray) : Option String :=
  (arguments.config.bind files).bind String.fromUTF8?

/-- The text of the input file, or of the standard input if no file is named. -/
def sourceText (arguments : Arguments) (files : String → Option ByteArray)
    (input : Option ByteArray) : Option String :=
  (arguments.input.elim input files).bind String.fromUTF8?

/-- If a configuration file is named, it is a text that gives a configuration. -/
def HasConfig (arguments : Arguments) (files : String → Option ByteArray) : Prop :=
  arguments.config = none ∨ ∃ text config, arguments.configText files = some text ∧
    Config.decoder.ofText text = .ok config

/-- What the program makes of the configuration file. -/
def loaded (arguments : Arguments) (files : String → Option ByteArray) :
    Except ConfigError Config :=
  Id.run (Config.load (fun path => (files path).bind String.fromUTF8?) arguments.config)

theorem ofFileText_eq_ok_iff {path : String} {text : Option String} :
    Config.ofFileText path text = .ok config ↔
      ∃ content, text = some content ∧ Config.decoder.ofText content = .ok config := by
  cases text with
  | none => simp [Config.ofFileText]
  | some content =>
      cases hread : Config.decoder.ofText content <;> simp [Config.ofFileText, hread]

theorem loaded_eq_ok_iff :
    arguments.loaded files = .ok config ↔
      arguments.config = none ∧ config = .initial ∨
        ∃ text, arguments.configText files = some text ∧
          Config.decoder.ofText text = .ok config := by
  cases hpath : arguments.config with
  | none => simp [loaded, configText, hpath, Config.load, eq_comm]
  | some path =>
      have hloaded : arguments.loaded files =
          Config.ofFileText path ((files path).bind String.fromUTF8?) := by
        rw [loaded, hpath]
        rfl
      rw [hloaded, ofFileText_eq_ok_iff, configText, hpath]
      simp

theorem hasConfig_iff :
    arguments.HasConfig files ↔ ∃ config, arguments.loaded files = .ok config := by
  simp only [loaded_eq_ok_iff, HasConfig]
  constructor
  · rintro (hnone | ⟨text, config, htext, hread⟩)
    · exact ⟨.initial, .inl ⟨hnone, rfl⟩⟩
    · exact ⟨config, .inr ⟨text, htext, hread⟩⟩
  · rintro ⟨config, ⟨hnone, -⟩ | ⟨text, htext, hread⟩⟩
    · exact .inl hnone
    · exact .inr ⟨text, config, htext, hread⟩

/-- What the program makes of the configuration file is read from it, or is initial without one. -/
theorem reads_of_loaded (h : arguments.loaded files = .ok config) :
    Config.decoder.Reads .initial
      ((arguments.configText files).map fun text => (DraftText.ofString text).value) config := by
  rcases loaded_eq_ok_iff.mp h with ⟨hnone, rfl⟩ | ⟨text, htext, hread⟩
  · rw [configText, hnone]
    rfl
  · rw [htext]
    exact Decoder.exists_of_ofText_eq_ok hread

theorem load_ofBytes (arguments : Arguments) (files : String → Option ByteArray)
    (input : Option ByteArray) :
    Config.load (Surroundings.ofBytes files input).fileText arguments.config =
      return arguments.loaded files := by
  rw [loaded]
  cases arguments.config <;> rfl

theorem readSource_ofBytes (arguments : Arguments) (files : String → Option ByteArray)
    (input : Option ByteArray) :
    (Surroundings.ofBytes files input).readSource arguments.input =
      return match arguments.sourceText files input with
        | some source => .ok source
        | none => .error (.unreadableInput arguments.input) := by
  rw [sourceText]
  cases arguments.input with
  | none =>
      cases htext : input.bind String.fromUTF8? <;>
        simp [Surroundings.readSource, Surroundings.ofBytes, htext]
  | some path =>
      cases htext : (files path).bind String.fromUTF8? <;>
        simp [Surroundings.readSource, Surroundings.ofBytes, htext]

/-- A run comes down to the configuration, and to the source if no grammar is asked for. It writes
once, and at its end. -/
theorem run_ofBytes (arguments : Arguments) (files : String → Option ByteArray)
    (input : Option ByteArray) (before : String) :
    Id.run ((arguments.run (.ofBytes files input)).run before) =
      match arguments.loaded files with
      | .error error => (.error (.config error), before)
      | .ok config =>
        let config := arguments.apply config
        let options := config.grammar.preset.options
        if arguments.dumpGrammar then
          (.ok (), before ++
            ((alakon options).toHostText (config.output.hostShape.getD options.shape) ++ "\n"))
        else
          match arguments.sourceText files input with
          | some source =>
            (.ok (), before ++ highlighted config (Alakon.highlighter options) source)
          | none => (.error (.unreadableInput arguments.input), before) := by
  rw [run, load_ofBytes, pure_bind]
  cases arguments.loaded files with
  | error error => rfl
  | ok config =>
      simp only [Alakon.ofGrammar_alakon, readSource_ofBytes, pure_bind]
      cases arguments.dumpGrammar with
      | true => rfl
      | false => cases arguments.sourceText files input <;> rfl

theorem exists_run_eq_error_iff {before : String} :
    (∃ failure, (Id.run ((arguments.run (.ofBytes files input)).run before)).1 = .error failure) ↔
      ¬arguments.HasConfig files ∨
        arguments.dumpGrammar = false ∧ arguments.sourceText files input = none := by
  rw [run_ofBytes, hasConfig_iff]
  cases arguments.loaded files with
  | error error => simp
  | ok config =>
      cases arguments.dumpGrammar <;> cases arguments.sourceText files input <;> simp

/-- Nothing is written by a run that fails. -/
theorem written_of_run_eq_error {before : String} {failure : Failure}
    (h : (Id.run ((arguments.run (.ofBytes files input)).run before)).1 = .error failure) :
    (Id.run ((arguments.run (.ofBytes files input)).run before)).2 = before := by
  rw [run_ofBytes] at h ⊢
  cases hloaded : arguments.loaded files with
  | error error => rfl
  | ok config =>
      rw [hloaded] at h
      cases hdump : arguments.dumpGrammar <;> cases hsource : arguments.sourceText files input <;>
        simp_all

/-- A run for the grammar asks for the configuration file only. -/
theorem run_eq_of_dumpGrammar {before : String} (hdump : arguments.dumpGrammar = true)
    (hfiles : ∀ path, arguments.config = some path → files' path = files path) :
    Id.run ((arguments.run (.ofBytes files' input')).run before) =
      Id.run ((arguments.run (.ofBytes files input)).run before) := by
  have hloaded : arguments.loaded files' = arguments.loaded files := by
    cases hpath : arguments.config with
    | none => rw [loaded, loaded, hpath]; rfl
    | some path =>
        have hbytes := hfiles path hpath
        rw [loaded, loaded, hpath]
        simp only [Config.load, hbytes]
  rw [run_ofBytes, run_ofBytes, hloaded]
  simp only [hdump, if_true]

/-- What a run writes under the settings. -/
def Writes (arguments : Arguments) (files : String → Option ByteArray) (input : Option ByteArray)
    (config : Config) (output : String) : Prop :=
  let options := config.grammar.preset.options
  if arguments.dumpGrammar then
    output = (alakon options).toHostText (config.output.hostShape.getD options.shape) ++ "\n"
  else
    ∃ source h, arguments.sourceText files input = some source ∧
      Highlighter.ofGrammar Pattern.ofString? (alakon options) = .ok h ∧
      match config.output.format with
      | .ansi => output = Ansi.render source (h.highlight source) config.theme
      | .html => output = Html.render source (h.highlight source)
      | .tokens => output = Tokens.render source (h.highlight source)

theorem exists_writes_of_run_eq_ok
    (h : (Id.run ((arguments.run (.ofBytes files input)).run "")).1 = .ok ()) :
    ∃ config : Config, config.IsSettled arguments
        ((arguments.configText files).map fun text => (DraftText.ofString text).value) ∧
      arguments.Writes files input config
        (Id.run ((arguments.run (.ofBytes files input)).run "")).2 := by
  rw [run_ofBytes] at h ⊢
  cases hloaded : arguments.loaded files with
  | error error => rw [hloaded] at h; cases h
  | ok config =>
      rw [hloaded] at h
      refine ⟨arguments.apply config,
        Config.isSettled_apply arguments (reads_of_loaded hloaded), ?_⟩
      rw [Writes]
      cases hdump : arguments.dumpGrammar with
      | true => simp only [if_true, String.empty_append]
      | false =>
          simp only [hdump, Bool.false_eq_true, if_false] at h ⊢
          cases hsource : arguments.sourceText files input with
          | none => rw [hsource] at h; cases h
          | some source =>
              refine ⟨source, _, rfl, Alakon.ofGrammar_alakon _, ?_⟩
              simp only [String.empty_append, highlighted, render]
              cases (arguments.apply config).output.format <;> rfl

end Arguments

/-! ## The program -/

theorem Outcome.code_ofResult_ne_zero_iff {result : Except Failure Unit} :
    (ofResult result).code ≠ 0 ↔ ∃ failure, result = .error failure := by
  cases result <;> simp [ofResult]

theorem Outcome.code_ofResult_eq_zero_iff {result : Except Failure Unit} :
    (ofResult result).code = 0 ↔ result = .ok () := by
  cases result <;> simp [ofResult]

theorem programEnd_eq (arguments : List String) (files : String → Option ByteArray)
    (input : Option ByteArray) :
    programEnd arguments files input =
      match Arguments.parse arguments with
      | .error error => (.ofResult (.error (.usage error)), "")
      | .ok .help => (.ofResult (.ok ()), usage ++ "\n")
      | .ok (.run parsed) =>
        let (result, written) := Id.run ((parsed.run (.ofBytes files input)).run "")
        (.ofResult result, written) := by
  rw [programEnd, runProgram]
  cases Arguments.parse arguments with
  | error error => rfl
  | ok request =>
      cases request with
      | help => exact congrArg (Prod.mk _) String.empty_append
      | run parsed => rfl

/-- The program fails if the command line is wrong, if a configuration file is named that is not
there or does not give a configuration, or if it needs the source and does not get it; it has then
written nothing. The grammar can always be made ready. A run for the grammar depends on nothing but
the configuration file. A run that does not fail writes the grammar, or the highlighted source,
under settings of the command line, the configuration file, or initial ones. -/
theorem runProgram_ofBytes (arguments : List String) (files : String → Option ByteArray)
    (input : Option ByteArray) :
    let outcome := (programEnd arguments files input).1
    let output := (programEnd arguments files input).2
    (outcome.code ≠ 0 ↔ (∃ error, Arguments.parse arguments = .error error) ∨
      ∃ parsed, Arguments.parse arguments = .ok (.run parsed) ∧
        (¬parsed.HasConfig files ∨
          parsed.dumpGrammar = false ∧ parsed.sourceText files input = none)) ∧
    (outcome.code ≠ 0 → output = "") ∧
    (∀ preset : Preset,
      ∃ h, Highlighter.ofGrammar Pattern.ofString? (alakon preset.options) = .ok h) ∧
    ∀ parsed, Arguments.parse arguments = .ok (.run parsed) →
      (parsed.dumpGrammar = true → ∀ files' input',
        (∀ path, parsed.config = some path → files' path = files path) →
          programEnd arguments files' input' = (outcome, output)) ∧
      (outcome.code = 0 → ∃ config : Config, config.IsSettled parsed
          ((parsed.configText files).map fun text => (DraftText.ofString text).value) ∧
        parsed.Writes files input config output) := by
  intro outcome output
  refine ⟨?_, ?_, fun preset => ⟨_, Alakon.ofGrammar_alakon preset.options⟩, ?_⟩
  · simp only [outcome, programEnd_eq]
    cases Arguments.parse arguments with
    | error error => simp [Outcome.code_ofResult_ne_zero_iff]
    | ok request =>
        cases request with
        | help => simp [Outcome.code_ofResult_ne_zero_iff]
        | run parsed =>
            simp [Outcome.code_ofResult_ne_zero_iff, Arguments.exists_run_eq_error_iff]
  · simp only [outcome, output, programEnd_eq]
    cases Arguments.parse arguments with
    | error error => simp
    | ok request =>
        cases request with
        | help => simp [Outcome.code_ofResult_ne_zero_iff]
        | run parsed =>
            intro hcode
            obtain ⟨failure, hfailure⟩ := Outcome.code_ofResult_ne_zero_iff.mp hcode
            exact Arguments.written_of_run_eq_error hfailure
  · intro parsed hparsed
    have hrun : ∀ files input, programEnd arguments files input =
        (.ofResult (Id.run ((parsed.run (.ofBytes files input)).run "")).1,
          (Id.run ((parsed.run (.ofBytes files input)).run "")).2) := by
      intro files input
      rw [programEnd_eq, hparsed]
    refine ⟨fun hdump files' input' hfiles => ?_, fun hcode => ?_⟩
    · rw [hrun, Arguments.run_eq_of_dumpGrammar hdump hfiles, ← hrun files input]
    · simp only [outcome, output, hrun files input] at hcode ⊢
      exact Arguments.exists_writes_of_run_eq_ok (Outcome.code_ofResult_eq_zero_iff.mp hcode)

end CodeTint
