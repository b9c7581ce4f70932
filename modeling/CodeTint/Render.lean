import CodeTint.Config.Basic
import CodeTint.Highlight.Basic

/-!
# Writing highlighted text

Highlighted text is written in one of three formats: for a terminal, as HTML, or as a list of the
classified spans.
-/

namespace CodeTint

/-! ## For terminals -/

namespace Ansi

/-- A span in the style of its category. Plain text, and text of a plain style, is left as it is. -/
def renderSpan (source : List Char) (theme : Theme) (span : Span) : String :=
  match span.category.bind fun category => (theme.styleOf category).sgrSequence? with
  | some sequence => sequence ++ span.text source ++ Style.sgrReset
  | none => span.text source

def render (source : String) (spans : List Span) (theme : Theme) : String :=
  String.join (spans.map (renderSpan source.toList theme))

end Ansi

/-! ## As HTML -/

namespace Html

/-- A character of text, without a meaning of its own. -/
def escapeChar (c : Char) : List Char :=
  match c with
  | '&' => "&amp;".toList
  | '<' => "&lt;".toList
  | '>' => "&gt;".toList
  | '"' => "&quot;".toList
  | '\'' => "&#x27;".toList
  | c => [c]

/-- The text with every character escaped that means something in HTML. -/
def escape (text : String) : String :=
  String.ofList (text.toList.flatMap escapeChar)

/-- What stands before the name of a category in the class of its elements. -/
def classStart : String := "hljs-"

/-- A span as an element of the class of its category, or as mere text if it has none. -/
def renderSpan (source : List Char) (span : Span) : String :=
  match span.category with
  | some category =>
    "<span class=\"" ++ classStart ++ category.name ++ "\">"
      ++ escape (span.text source) ++ "</span>"
  | none => escape (span.text source)

def render (source : String) (spans : List Span) : String :=
  String.join (spans.map (renderSpan source.toList))

end Html

/-! ## As a list of spans -/

namespace Tokens

/-- The line of a classified span: its category, its bytes, and its text in quotes. -/
def renderSpan (source : List Char) (span : Span) : String :=
  match span.category with
  | some category =>
    category.name ++ "\t" ++ toString span.start ++ ".." ++ toString span.stop ++ "\t"
      ++ quoted (span.text source) ++ "\n"
  | none => ""

def render (source : String) (spans : List Span) : String :=
  String.join (spans.map (renderSpan source.toList))

end Tokens

/-- The highlighted text in the given format. -/
def render (format : OutputFormat) (source : String) (spans : List Span) (theme : Theme) : String :=
  match format with
  | .ansi => Ansi.render source spans theme
  | .html => Html.render source spans
  | .tokens => Tokens.render source spans

end CodeTint
