import CodeTint.Grammar.Basic
import CodeTint.Grammar.Schema
import CodeTint.Style.Basic

/-!
# Configuration

What can be set in a configuration file: the grammar, the output, and the style of each category.
-/

namespace CodeTint

inductive OutputFormat where
  /-- With escape sequences for a terminal. -/
  | ansi
  /-- With elements of HTML. -/
  | html
  /-- As a list of the classified spans. -/
  | tokens
deriving Repr, DecidableEq

namespace OutputFormat

def name : OutputFormat → String
  | ansi => "ansi"
  | html => "html"
  | tokens => "tokens"

def ofName (name : String) : Except String OutputFormat :=
  match name with
  | "ansi" => .ok ansi
  | "html" => .ok html
  | "tokens" => .ok tokens
  | other => .error ("unknown output format " ++ quoted other ++ " (expected ansi, html or tokens)")

end OutputFormat

/-- The style of each category; plain text has none. -/
structure Theme where
  string : Style
  number : Style
  keyword : Style
  builtIn : Style
deriving Repr, DecidableEq

namespace Theme

/-- The theme that is used where no other is given. -/
def initial : Theme where
  string := .colored (.named .green)
  number := .colored (.named .cyan)
  keyword := { Style.colored (.named .magenta) with effects := .ofList [.bold] }
  builtIn := .colored (.named .yellow)

def styleOf (theme : Theme) : Category → Style
  | .string => theme.string
  | .number => theme.number
  | .keyword => theme.keyword
  | .builtIn => theme.builtIn

end Theme

structure GrammarConfig where
  preset : Preset
deriving Repr, DecidableEq

structure OutputConfig where
  format : OutputFormat
  /-- The shape in which the grammar is written; none for the shape of the grammar itself. -/
  hostShape : Option HostShape
deriving Repr, DecidableEq

structure Config where
  grammar : GrammarConfig
  output : OutputConfig
  theme : Theme
deriving Repr, DecidableEq

namespace Config

/-- The settings that hold where nothing is set. -/
def initial : Config :=
  ⟨⟨.classic⟩, ⟨.ansi, none⟩, .initial⟩

end Config

/-! ## Configurations as JSON

How settings are written as JSON values and read back. A file need only name what it changes: a
setting that is not given keeps its initial value, and a style that is given starts from the plain
one. -/

section Schema

open Decoder (choice record field tuple byte string option)

/-! ### Styles -/

def NamedColor.toJson (color : NamedColor) : Json :=
  .string color.name

def NamedColor.decoder : Decoder NamedColor :=
  choice (NamedColor.all.map fun color => .plain [color.name] color)

def Color.toJson : Color → Json
  | .default => .string "Default"
  | .named color => .ofMembers [("Named", color.toJson)]
  | .indexed index => .ofMembers [("Indexed", .ofNat index.toNat)]
  | .rgb red green blue =>
    .ofMembers [("Rgb", .array [.ofNat red.toNat, .ofNat green.toNat, .ofNat blue.toNat])]

def Color.rgbDecoder : Decoder (UInt8 × UInt8 × UInt8) :=
  tuple [
    field "red" true byte fun red (_, green, blue) => (red, green, blue),
    field "green" true byte fun green (red, _, blue) => (red, green, blue),
    field "blue" true byte fun blue (red, green, _) => (red, green, blue)]
    (0, 0, 0)

def Color.decoder : Decoder Color :=
  choice [
    .plain ["Default"] .default,
    .holding "Named" fun reading draft => .named <$> NamedColor.decoder reading draft,
    .holding "Indexed" fun reading draft => .indexed <$> byte reading draft,
    .holding "Rgb" fun reading draft =>
      (fun (red, green, blue) => .rgb red green blue) <$> Color.rgbDecoder reading draft]

def Effects.toJson (effects : Effects) : Json :=
  .string effects.write

def Effects.decoder : Decoder Effects :=
  string.filterMap Effects.read?

def Style.toJson (style : Style) : Json :=
  .ofMembers [("fg", style.foreground.toJson), ("bg", style.background.toJson),
    ("flags", style.effects.toJson)]

def Style.decoder : Decoder Style :=
  record [
    field "fg" false Color.decoder fun foreground style => { style with foreground },
    field "bg" false Color.decoder fun background style => { style with background },
    field "flags" false Effects.decoder fun effects style => { style with effects }]
    .plain

/-! ### Settings -/

def Theme.toJson (theme : Theme) : Json :=
  .ofMembers [("string", theme.string.toJson), ("number", theme.number.toJson),
    ("keyword", theme.keyword.toJson), ("built_in", theme.builtIn.toJson)]

def Theme.decoder : Decoder Theme :=
  record [
    field "string" false Style.decoder fun string theme => { theme with string },
    field "number" false Style.decoder fun number theme => { theme with number },
    field "keyword" false Style.decoder fun keyword theme => { theme with keyword },
    field "built_in" false Style.decoder fun builtIn theme => { theme with builtIn }]
    .initial

def OutputFormat.toJson (format : OutputFormat) : Json :=
  .string format.name

def OutputFormat.decoder : Decoder OutputFormat :=
  choice [.plain ["ansi"] .ansi, .plain ["html"] .html, .plain ["tokens"] .tokens]

def GrammarConfig.toJson (config : GrammarConfig) : Json :=
  .ofMembers [("preset", config.preset.toJson)]

def GrammarConfig.decoder : Decoder GrammarConfig :=
  record [field "preset" false Preset.decoder fun preset config => { config with preset }]
    Config.initial.grammar

def OutputConfig.toJson (config : OutputConfig) : Json :=
  .ofMembers [("format", config.format.toJson),
    ("host_shape", (config.hostShape.map (·.toJson)).getD .null)]

def OutputConfig.decoder : Decoder OutputConfig :=
  record [
    field "format" false OutputFormat.decoder fun format config => { config with format },
    field "host_shape" false (option HostShape.decoder) fun hostShape config =>
      { config with hostShape }]
    Config.initial.output

def Config.toJson (config : Config) : Json :=
  .ofMembers [("grammar", config.grammar.toJson), ("output", config.output.toJson),
    ("theme", config.theme.toJson)]

def Config.decoder : Decoder Config :=
  record [
    field "grammar" false GrammarConfig.decoder fun grammar config => { config with grammar },
    field "output" false OutputConfig.decoder fun output config => { config with output },
    field "theme" false Theme.decoder fun theme config => { config with theme }]
    .initial

end Schema

/-! ## Loading configurations

A configuration is read from a file, or is the initial one where no file is named. What a file holds
is asked of the surroundings: `fileText` gives the text of a file, or none if there is no such file
or it is not a text. -/

inductive ConfigError where
  | unreadable (path : String)
  | invalid (path : String) (fault : Fault)
deriving Repr, DecidableEq

namespace ConfigError

def message : ConfigError → String
  | unreadable path => "Failed to read config file " ++ path
  | invalid path _ => "Failed to parse config file " ++ path

end ConfigError

namespace Config

/-- The configuration that the text of a file gives. -/
def ofFileText (path : String) : Option String → Except ConfigError Config
  | none => .error (.unreadable path)
  | some text =>
    match Config.decoder.ofText text with
    | .ok config => .ok config
    | .error fault => .error (.invalid path fault)

/-- The configuration in the named file, or the initial one. -/
def load {m : Type → Type} [Monad m] (fileText : String → m (Option String)) :
    (path : Option String) → m (Except ConfigError Config)
  | none => return .ok .initial
  | some path => return ofFileText path (← fileText path)

end Config

end CodeTint
