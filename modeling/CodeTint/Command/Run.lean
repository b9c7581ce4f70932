import CodeTint.Config.Basic
import CodeTint.Highlight.Scan
import CodeTint.Host.Object
import CodeTint.Pattern.Reader
import CodeTint.Render

/-!
# The program

What the program does with its arguments: it writes the grammar as a host object, or reads source
text and writes it highlighted. It reads from and writes to its surroundings, one step after the
other.
-/

namespace CodeTint

/-! ## Command-line arguments

The arguments are read from the left. An option takes the next argument as its value, whatever that
is; only the shape after `--dump-grammar` may be missing, and is taken to be missing if the next
argument begins with a dash. What is no option is the input file, of which there may be one; a dash
alone stands for the standard input. -/

def usage : String :=
  "usage: alakon-highlight [--config FILE] [--format ansi|html|tokens]\n" ++
  "                        [--preset classic|extended] [--dump-grammar [legacy|modern]] [FILE]\n" ++
  "\n" ++
  "Highlights Alakon source from FILE (or stdin) and writes it to stdout.\n" ++
  "--dump-grammar prints the grammar as a host JSON object instead, in the given\n" ++
  "shape, else the config's output.host_shape, else the preset's own shape."

/-- What the command line sets. What it leaves open is taken from the configuration. -/
structure Arguments where
  config : Option String
  format : Option OutputFormat
  preset : Option Preset
  dumpGrammar : Bool
  dumpShape : Option HostShape
  /-- The input file; none for the standard input. -/
  input : Option String
deriving Repr, DecidableEq

inductive Request where
  | help
  | run (arguments : Arguments)
deriving Repr, DecidableEq

inductive UsageError where
  | missingValue (option : String)
  /-- The value of an option is no name that the option knows. -/
  | unknownName (message : String)
  | unknownOption (option : String)
  | secondInput
deriving Repr, DecidableEq

namespace UsageError

/-- What is written about the error; a misuse of the options is followed by the usage. -/
def message : UsageError → String
  | missingValue option => option ++ " needs a value\n\n" ++ usage
  | unknownName message => message
  | unknownOption option => "unknown option " ++ quoted option ++ "\n\n" ++ usage
  | secondInput => "only one input file may be given\n\n" ++ usage

end UsageError

/-- The value of an option, by the names that the option knows. -/
def readName {α : Type} (ofName : String → Except String α) (name : String) : Except UsageError α :=
  match ofName name with
  | .ok value => .ok value
  | .error message => .error (.unknownName message)

def beginsWithDash (argument : String) : Bool :=
  argument.toList.head? = some '-'

namespace Arguments

def empty : Arguments :=
  ⟨none, none, none, false, none, none⟩

/-- Reads the arguments; `parsed` holds what those before have set, and `inputGiven` tells whether
one of them was the input. -/
def parseFrom (parsed : Arguments) (inputGiven : Bool) : List String → Except UsageError Request
  | [] => .ok (.run parsed)
  | argument :: rest =>
    if argument = "--config" then
      match rest with
      | [] => .error (.missingValue argument)
      | path :: rest => parseFrom { parsed with config := some path } inputGiven rest
    else if argument = "--format" then
      match rest with
      | [] => .error (.missingValue argument)
      | name :: rest => do
        let format ← readName OutputFormat.ofName name
        parseFrom { parsed with format := some format } inputGiven rest
    else if argument = "--preset" then
      match rest with
      | [] => .error (.missingValue argument)
      | name :: rest => do
        let preset ← readName Preset.ofName name
        parseFrom { parsed with preset := some preset } inputGiven rest
    else if argument = "--dump-grammar" then
      match rest with
      | [] => .ok (.run { parsed with dumpGrammar := true })
      | next :: others =>
        if beginsWithDash next then
          parseFrom { parsed with dumpGrammar := true } inputGiven (next :: others)
        else do
          let shape ← readName HostShape.ofName next
          parseFrom { parsed with dumpGrammar := true, dumpShape := some shape } inputGiven others
    else if argument = "-h" || argument = "--help" then .ok .help
    else if beginsWithDash argument && argument ≠ "-" then .error (.unknownOption argument)
    else if inputGiven then .error .secondInput
    else
      let input := if argument = "-" then parsed.input else some argument
      parseFrom { parsed with input } true rest

def parse (arguments : List String) : Except UsageError Request :=
  parseFrom empty false arguments

def apply (arguments : Arguments) (config : Config) : Config where
  grammar := ⟨arguments.preset.getD config.grammar.preset⟩
  output :=
    ⟨arguments.format.getD config.output.format, arguments.dumpShape.or config.output.hostShape⟩
  theme := config.theme

end Arguments

/-- The shape in which a grammar is written under the configuration. -/
def Config.dumpShape (config : Config) (grammar : Grammar) : HostShape :=
  config.output.hostShape.getD grammar.shape

/-! ## Runs -/

inductive Failure where
  | usage (error : UsageError)
  | config (error : ConfigError)
  | grammar (error : InvalidPattern)
  /-- The input file cannot be read, or the standard input if no file is named. -/
  | unreadableInput (path : Option String)
deriving Repr, DecidableEq

namespace Failure

def message : Failure → String
  | usage error => error.message
  | config error => error.message
  | grammar _ => "Failed to compile grammar"
  | unreadableInput (some path) => "Failed to read input file " ++ path
  | unreadableInput none => "Failed to read standard input"

end Failure

/-- How the program ends: with an exit code, and with what it reports as an error. -/
structure Outcome where
  code : Nat
  errors : String
deriving Repr, DecidableEq

/-- Files and the standard input, as texts, none for what is not there or is not a text; and the
standard output. -/
structure Surroundings (m : Type → Type) where
  fileText : String → m (Option String)
  standardInput : m (Option String)
  write : String → m Unit

namespace Surroundings

/-- The source text: the named file, or the standard input. -/
def readSource {m : Type → Type} [Monad m] (surroundings : Surroundings m) (path : Option String) :
    m (Except Failure String) := do
  let text ←
    match path with
    | some path => surroundings.fileText path
    | none => surroundings.standardInput
  match text with
  | some text => return .ok text
  | none => return .error (.unreadableInput path)

end Surroundings

def highlighted (config : Config) (highlighter : Highlighter) (source : String) : String :=
  render config.output.format source (highlighter.highlight source) config.theme

namespace Arguments

def run {m : Type → Type} [Monad m] (arguments : Arguments) (surroundings : Surroundings m) :
    m (Except Failure Unit) := do
  match ← Config.load surroundings.fileText arguments.config with
  | .error error => return .error (.config error)
  | .ok config =>
    let config := arguments.apply config
    let grammar := alakon config.grammar.preset.options
    if arguments.dumpGrammar then
      surroundings.write (grammar.toHostText (config.dumpShape grammar) ++ "\n")
      return .ok ()
    match Highlighter.ofGrammar Pattern.ofString? grammar with
    | .error error => return .error (.grammar error)
    | .ok highlighter =>
      match ← surroundings.readSource arguments.input with
      | .error failure => return .error failure
      | .ok source =>
        surroundings.write (highlighted config highlighter source)
        return .ok ()

end Arguments

namespace Outcome

def ofResult : Except Failure Unit → Outcome
  | .ok () => ⟨0, ""⟩
  | .error failure => ⟨1, "Error: " ++ failure.message⟩

end Outcome

def runProgram {m : Type → Type} [Monad m] (arguments : List String)
    (surroundings : Surroundings m) : m Outcome := do
  match Arguments.parse arguments with
  | .error error => return .ofResult (.error (.usage error))
  | .ok .help =>
    surroundings.write (usage ++ "\n")
    return .ofResult (.ok ())
  | .ok (.run arguments) => return .ofResult (← arguments.run surroundings)

end CodeTint
