import Std.Data.TreeMap
import CodeTint.Grammar.Basic
import CodeTint.Pattern.Basic
import CodeTint.Text.Cursor

/-!
# Highlighters

A highlighter is a grammar made ready: its patterns are read, and its words are put into a table in
which each word has the category of the first group that lists it. Which texts are patterns, and
what they find, is left open: `read` gives the pattern that a text writes.
-/

namespace CodeTint

/-! ## Spans

A span is a stretch of the source text with its category, given by byte offsets. Text is covered by
spans one after another; `appendSpan` keeps such a sequence free of empty spans and of neighbours
that are both plain. -/

/-- A stretch of the source text from the byte `start` to the byte `stop`; plain text has no
category. -/
structure Span where
  category : Option Category
  start : Nat
  stop : Nat
deriving Repr, DecidableEq

namespace Span

def text (span : Span) (source : List Char) : String :=
  String.ofList (takeBytes (span.stop - span.start) (dropBytes span.start source))

def isEmpty (span : Span) : Bool :=
  span.start = span.stop

end Span

/-- A sequence of spans, the last one first, with a further span. An empty span is left out, and a
plain one extends the plain span that it follows. -/
def appendSpan (reversed : List Span) (span : Span) : List Span :=
  if span.isEmpty then reversed
  else
    match span.category, reversed with
    | none, ⟨none, start, stop⟩ :: earlier =>
      if stop = span.start then ⟨none, start, span.stop⟩ :: earlier else span :: reversed
    | _, _ => span :: reversed

/-- The spans in order, without empty ones and with neighbours that are plain made one. -/
def joinSpans (spans : List Span) : List Span :=
  (spans.foldl appendSpan []).reverse

/-! ## Rules made ready -/

/-- A rule whose patterns are ready to search with. -/
inductive CompiledRule where
  | region (category : Category) (opening closing : Pattern) (illegal : Option Pattern)
  | pattern (category : Category) (variants : List Pattern)

/-- A grammar that is ready to highlight texts. -/
structure Highlighter where
  name : String
  rules : List CompiledRule
  wordPattern : Pattern
  words : Std.TreeMap String Category

/-! ### From grammars to highlighters -/

/-- The place of a pattern in a grammar. -/
inductive PatternRole where
  | regionOpening
  | regionClosing
  | regionIllegal
  | rule
  | keyword
deriving Repr, DecidableEq

namespace PatternRole

def name : PatternRole → String
  | regionOpening => "region begin"
  | regionClosing => "region end"
  | regionIllegal => "region illegal"
  | rule => "rule"
  | keyword => "keyword"

end PatternRole

structure InvalidPattern where
  role : PatternRole
  source : String
deriving Repr, DecidableEq

namespace InvalidPattern

def message (invalid : InvalidPattern) : String :=
  "Invalid " ++ invalid.role.name ++ " pattern " ++ quoted invalid.source

end InvalidPattern

def compilePattern (read : String → Option Pattern) (role : PatternRole) (source : String) :
    Except InvalidPattern Pattern :=
  match read source with
  | some pattern => .ok pattern
  | none => .error ⟨role, source⟩

/-- The rule with its patterns read, in the order in which it declares them. -/
def Rule.compile (read : String → Option Pattern) : Rule → Except InvalidPattern CompiledRule
  | .region rule => do
    let opening ← compilePattern read .regionOpening rule.opening
    let closing ← compilePattern read .regionClosing rule.closing
    let illegal ← rule.illegal.mapM (compilePattern read .regionIllegal)
    return .region rule.category opening closing illegal
  | .pattern rule => do
    return .pattern rule.category (← rule.variants.mapM (compilePattern read .rule))

/-- The table of words. A word that is listed more than once keeps its first category. -/
def wordTable (groups : List KeywordGroup) : Std.TreeMap String Category :=
  groups.foldl
    (fun table group =>
      group.words.foldl (fun table word => table.insertIfNew word group.category) table)
    ∅

namespace Highlighter

/-- The highlighter of a grammar; a text that should be a pattern and is none is the only hindrance.
-/
def ofGrammar (read : String → Option Pattern) (grammar : Grammar) :
    Except InvalidPattern Highlighter := do
  let rules ← grammar.rules.mapM (Rule.compile read)
  let wordPattern ← compilePattern read .keyword grammar.keywords.pattern
  return ⟨grammar.name, rules, wordPattern, wordTable grammar.keywords.groups⟩

def classifyWord (h : Highlighter) (word : String) : Option Category :=
  h.words[word]?

end Highlighter

end CodeTint
