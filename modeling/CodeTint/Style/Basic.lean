import CodeTint.Text.Chars

/-!
# Styles

A style is how a piece of text looks on a terminal. The escape sequence of a style names its effects
and its two colors, in this order.
-/

namespace CodeTint

/-! ## Colors

The colors that a terminal can be told to use, and the parameters of the escape sequence that
selects them (SGR, Select Graphic Rendition). -/

/-- The eight colors of every terminal, each in a normal and a bright form. -/
inductive NamedColor where
  | black
  | red
  | green
  | yellow
  | blue
  | magenta
  | cyan
  | white
  | brightBlack
  | brightRed
  | brightGreen
  | brightYellow
  | brightBlue
  | brightMagenta
  | brightCyan
  | brightWhite
deriving Repr, DecidableEq

namespace NamedColor

def all : List NamedColor :=
  [black, red, green, yellow, blue, magenta, cyan, white,
    brightBlack, brightRed, brightGreen, brightYellow,
    brightBlue, brightMagenta, brightCyan, brightWhite]

/-- The place of the color among the named colors; the bright ones come after the normal ones. -/
def index : NamedColor → Nat
  | black => 0
  | red => 1
  | green => 2
  | yellow => 3
  | blue => 4
  | magenta => 5
  | cyan => 6
  | white => 7
  | brightBlack => 8
  | brightRed => 9
  | brightGreen => 10
  | brightYellow => 11
  | brightBlue => 12
  | brightMagenta => 13
  | brightCyan => 14
  | brightWhite => 15

def ofIndex? (index : Nat) : Option NamedColor :=
  all[index]?

def isBright (color : NamedColor) : Bool :=
  8 ≤ color.index

def name : NamedColor → String
  | black => "Black"
  | red => "Red"
  | green => "Green"
  | yellow => "Yellow"
  | blue => "Blue"
  | magenta => "Magenta"
  | cyan => "Cyan"
  | white => "White"
  | brightBlack => "BrightBlack"
  | brightRed => "BrightRed"
  | brightGreen => "BrightGreen"
  | brightYellow => "BrightYellow"
  | brightBlue => "BrightBlue"
  | brightMagenta => "BrightMagenta"
  | brightCyan => "BrightCyan"
  | brightWhite => "BrightWhite"

end NamedColor

/-- A color of text or of its background. -/
inductive Color where
  /-- The color that the terminal has by itself. -/
  | default
  | named (color : NamedColor)
  /-- A color of the palette of 256 colors, which begins with the named ones. -/
  | indexed (index : UInt8)
  | rgb (red green blue : UInt8)
deriving Repr, DecidableEq

inductive Layer where
  | foreground
  | background
deriving Repr, DecidableEq

namespace Layer

def normalBase : Layer → Nat
  | foreground => 30
  | background => 40

def brightBase : Layer → Nat
  | foreground => 90
  | background => 100

/-- The parameter before a color of the palette or a mixed color. -/
def extended : Layer → Nat
  | foreground => 38
  | background => 48

end Layer

def NamedColor.sgrParameter (color : NamedColor) (layer : Layer) : Nat :=
  if color.isBright then layer.brightBase + color.index % 8 else layer.normalBase + color.index % 8

/-- The parameters that select the color; none for the terminal's own. Colors of the palette that
have a name are selected by it. -/
def Color.sgrParameters (color : Color) (layer : Layer) : List Nat :=
  match color with
  | default => []
  | named color => [color.sgrParameter layer]
  | indexed index =>
    match NamedColor.ofIndex? index.toNat with
    | some color => [color.sgrParameter layer]
    | none => [layer.extended, 5, index.toNat]
  | rgb red green blue => [layer.extended, 2, red.toNat, green.toNat, blue.toNat]

/-! ## Effects on text

Text may be bold, underlined and so on. A set of effects is a word of sixteen bits of which the
lowest six are declared; the others are kept, and mean nothing. It is written as the names of its
effects with `|` between them, and what has no name as a hexadecimal number. -/

inductive Effect where
  | bold
  | faint
  | italic
  | underline
  | reverse
  | strikethrough
deriving Repr, DecidableEq

namespace Effect

/-- The effects in the order of their declaration. -/
def all : List Effect :=
  [bold, faint, italic, underline, reverse, strikethrough]

def bit : Effect → UInt16
  | bold => 1
  | faint => 2
  | italic => 4
  | underline => 8
  | reverse => 16
  | strikethrough => 32

def name : Effect → String
  | bold => "BOLD"
  | faint => "FAINT"
  | italic => "ITALIC"
  | underline => "UNDERLINE"
  | reverse => "REVERSE"
  | strikethrough => "STRIKETHROUGH"

def sgrParameter : Effect → Nat
  | bold => 1
  | faint => 2
  | italic => 3
  | underline => 4
  | reverse => 7
  | strikethrough => 9

end Effect

/-- A set of effects, as bits. -/
structure Effects where
  bits : UInt16
deriving Repr, DecidableEq

namespace Effects

def empty : Effects := ⟨0⟩

def isEmpty (effects : Effects) : Bool :=
  effects.bits = 0

def contains (effects : Effects) (effect : Effect) : Bool :=
  effects.bits &&& effect.bit = effect.bit

def union (first second : Effects) : Effects :=
  ⟨first.bits ||| second.bits⟩

def ofList (effects : List Effect) : Effects :=
  ⟨effects.foldl (fun bits effect => bits ||| effect.bit) 0⟩

/-- The declared effects of the set, in the order of their declaration. -/
def toList (effects : Effects) : List Effect :=
  Effect.all.filter effects.contains

def sgrParameters (effects : Effects) : List Nat :=
  effects.toList.map (·.sgrParameter)

/-- The bits of the set that are not declared. -/
def undeclared (effects : Effects) : UInt16 :=
  effects.bits &&& ~~~(ofList Effect.all).bits

/-! ### As text -/

def write (effects : Effects) : String :=
  let names := effects.toList.map (·.name)
  let rest := effects.undeclared
  let numbers := if rest = 0 then [] else [String.ofList ('0' :: 'x' :: Nat.toDigits 16 rest.toNat)]
  " | ".intercalate (names ++ numbers)

/-- The pieces of a text between bars. `opened` holds the characters of the piece that is being
read, last one first. -/
def splitAtBars : (text : List Char) → (opened : List Char) → List (List Char)
  | [], opened => [opened.reverse]
  | c :: text, opened =>
    if c = '|' then opened.reverse :: splitAtBars text [] else splitAtBars text (c :: opened)

/-- The bits that a hexadecimal number writes, which may have a sign in front and must fit sixteen
bits. -/
def readBits? (digits : List Char) : Option UInt16 := do
  let digits :=
    match digits with
    | '+' :: digits => digits
    | digits => digits
  if digits.isEmpty then none
  let value ← digitsValue? 16 digits
  if value < UInt16.size then some (UInt16.ofNat value) else none

/-- The set that one piece of the text names. -/
def readPiece? (piece : List Char) : Option Effects :=
  match trimBlanks piece with
  | '0' :: 'x' :: digits => (readBits? digits).map (⟨·⟩)
  | name => (Effect.all.find? (·.name = String.ofList name)).map fun effect => ⟨effect.bit⟩

/-- The set that a text writes. A text of blanks is the empty set; otherwise every piece between
bars names an effect or gives bits. -/
def read? (text : String) : Option Effects :=
  if text.toList.all isBlank then some empty
  else (splitAtBars text.toList []).foldlM (fun set piece => (readPiece? piece).map set.union) empty

end Effects

/-! ## Styles and their sequences -/

structure Style where
  foreground : Color
  background : Color
  effects : Effects
deriving Repr, DecidableEq

namespace Style

/-- The style of text that is left as it is. -/
def plain : Style := ⟨.default, .default, .empty⟩

def colored (color : Color) : Style :=
  { plain with foreground := color }

/-- Whether the style is that of text that is left as it is. -/
def isPlain (style : Style) : Bool :=
  style.foreground = .default && style.background = .default && style.effects.isEmpty

def sgrParameters (style : Style) : List Nat :=
  style.effects.sgrParameters ++ style.foreground.sgrParameters .foreground
    ++ style.background.sgrParameters .background

/-- The escape sequence that selects the style; none for the plain style. -/
def sgrSequence? (style : Style) : Option String :=
  if style.isPlain then none
  else some ("\x1b[" ++ ";".intercalate (style.sgrParameters.map toString) ++ "m")

/-- The escape sequence that ends every style. -/
def sgrReset : String := "\x1b[0m"

end Style

end CodeTint
