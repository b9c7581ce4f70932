import CodeTint.Grammar.Basic
import CodeTint.Highlight.Basic
import CodeTint.Pattern.Reader
import CodeTint.Proofs.Highlight.Lines

/-!
# The patterns of the Alakon language

The patterns of numbers and words as trees (`Alakon.highlighter`), so that what they match can be
derived from the matcher part by part. A number may follow a character that is no word character of
ASCII only; that is asked in front of its first digit, behind the sign.
-/

namespace CodeTint

namespace Alakon

/-! ## Parts of patterns -/

def letterSet : CharSet :=
  .union (.range 'A' 'Z') (.range 'a' 'z')

def wordSet : CharSet :=
  .union (.union letterSet (.range '0' '9')) (.single '_')

def digitSet : CharSet :=
  .range '0' '9'

def hexDigitSet : CharSet :=
  .union (.union (.range 'a' 'f') (.range 'A' 'F')) (.range '0' '9')

def eitherSet (x y : Char) : CharSet :=
  .union (.single x) (.single y)

def someNode (set : CharSet) : Node :=
  .repetition (.one set) 1 none true

def anyNode (set : CharSet) : Node :=
  .repetition (.one set) 0 none true

def optionNode (body : Node) : Node :=
  .repetition body 0 (some 1) true

abbrev charNode (x : Char) : Node :=
  .one (.single x)

def signNode : Node :=
  optionNode (charNode '-')

def edgeNode : Node :=
  .assertion (.word .boundary true)

def hexNumberNode : Node :=
  .seqOf [signNode, edgeNode, charNode '0', .one (eitherSet 'x' 'X'), someNode hexDigitSet]

/-- A fraction whose point no digit needs to follow. -/
def fractionNode : Node :=
  optionNode (.seqOf [charNode '.', anyNode digitSet])

def exponentNode : Node :=
  optionNode
    (.seqOf [.one (eitherSet 'e' 'E'), optionNode (.one (eitherSet '-' '+')), someNode digitSet])

def signedNumberNode : Node :=
  .seqOf [signNode,
    .alt (.seqOf [edgeNode, someNode digitSet, fractionNode])
      (.seqOf [charNode '.', someNode digitSet]),
    exponentNode]

def plainNumberNode : Node :=
  .seqOf [edgeNode, someNode digitSet, optionNode (.seqOf [charNode '.', someNode digitSet]),
    edgeNode]

def identifierNode : Node :=
  .seqOf [.one letterSet, anyNode wordSet]

/-! ## Patterns -/

abbrev hexNumber : Pattern :=
  hexNumberNode.pattern

abbrev signedNumber : Pattern :=
  signedNumberNode.pattern

abbrev plainNumber : Pattern :=
  plainNumberNode.pattern

abbrev identifier : Pattern :=
  identifierNode.pattern

abbrev quotePattern : Pattern :=
  (charNode '"').pattern

abbrev lineFeedPattern : Pattern :=
  (charNode '\n').pattern

/-- A text in quotes that ends on its line. -/
abbrev stringRegion : CompiledRule :=
  .region .string quotePattern quotePattern (some lineFeedPattern)

def numberVariants : NumberForm → List Pattern
  | .baseMode => [hexNumber, signedNumber]
  | .singlePattern => [plainNumber]

theorem read_hexNumberPattern : Node.ofString? hexNumberPattern = some hexNumberNode := by
  decide +kernel

theorem read_signedNumberPattern : Node.ofString? signedNumberPattern = some signedNumberNode := by
  decide +kernel

theorem read_plainNumberPattern : Node.ofString? plainNumberPattern = some plainNumberNode := by
  decide +kernel

theorem read_identifierPattern : Node.ofString? identifierPattern = some identifierNode := by
  decide +kernel

theorem compilePattern_of_read {source : String} {node : Node}
    (h : Node.ofString? source = some node) (role : PatternRole) :
    compilePattern Pattern.ofString? role source = .ok node.pattern := by
  rw [compilePattern, Pattern.ofString?, h]
  rfl

/-! ## The highlighter -/

theorem compile_stringRule : stringRule.compile Pattern.ofString? = .ok stringRegion := by
  rfl

theorem compile_numberRule (form : NumberForm) :
    (numberRule form).compile Pattern.ofString? = .ok (.pattern .number (numberVariants form)) := by
  cases form with
  | baseMode =>
      simp [numberRule, Rule.compile, compilePattern_of_read read_hexNumberPattern,
        compilePattern_of_read read_signedNumberPattern]
      rfl
  | singlePattern =>
      simp [numberRule, Rule.compile, compilePattern_of_read read_plainNumberPattern]
      rfl

/-- What the grammar of the language is made into. -/
def highlighter (options : AlakonOptions) : Highlighter where
  name := "Alakon"
  rules := [stringRegion, .pattern .number (numberVariants options.number)]
  wordPattern := identifier
  words := wordTable (alakon options).keywords.groups

theorem ofGrammar_alakon (options : AlakonOptions) :
    Highlighter.ofGrammar Pattern.ofString? (alakon options) = .ok (highlighter options) := by
  have hrules : (alakon options).rules.mapM (Rule.compile Pattern.ofString?) =
      .ok (highlighter options).rules := by
    show [stringRule, numberRule options.number].mapM (Rule.compile Pattern.ofString?) = _
    simp [compile_stringRule, compile_numberRule]
    rfl
  have hkeywords : compilePattern Pattern.ofString? .keyword (alakon options).keywords.pattern =
      .ok identifier :=
    compilePattern_of_read read_identifierPattern .keyword
  rw [Highlighter.ofGrammar, hrules, hkeywords]
  rfl

end Alakon

/-! ## The lines of an Alakon text

Whatever words and whichever form of numbers the language is built with, its patterns can be read,
and none of them has a use for an end of line; a text in quotes that holds one is no token
(`Alakon.exists_ofGrammar`). Its texts are therefore highlighted line by line
(`Alakon.exists_highlight_append`). -/

namespace Alakon

/-- What becomes of the grammar of the language: texts in quotes that end on their line, numbers and
words, neither of which hold a quote or an end of line. -/
structure IsHighlighter (options : AlakonOptions) (h : Highlighter) : Prop where
  leftmost : h.Leftmost
  exists_rules : ∃ variants, h.rules = [stringRegion, .pattern .number variants] ∧
    ∀ p ∈ variants, p.Avoids '\n' ∧ p.Avoids '"'
  wordPattern : h.wordPattern.Avoids '\n' ∧ h.wordPattern.Avoids '"'
  words : h.words = wordTable (alakon options).keywords.groups

theorem avoids_of_mem_numberVariants {form : NumberForm} {p : Pattern}
    (hp : p ∈ numberVariants form) : p.Avoids '\n' ∧ p.Avoids '"' := by
  cases form with
  | baseMode =>
      rcases List.mem_pair.mp hp with rfl | rfl
      · exact ⟨Pattern.avoids_of_avoids rfl, Pattern.avoids_of_avoids rfl⟩
      · exact ⟨Pattern.avoids_of_avoids rfl, Pattern.avoids_of_avoids rfl⟩
  | singlePattern =>
      obtain rfl := List.mem_singleton.mp hp
      exact ⟨Pattern.avoids_of_avoids rfl, Pattern.avoids_of_avoids rfl⟩

instance : stringRegion.Leftmost :=
  Rule.leftmost_of_compile compile_stringRule

instance (form : NumberForm) : (CompiledRule.pattern .number (numberVariants form)).Leftmost :=
  Rule.leftmost_of_compile (compile_numberRule form)

instance (options : AlakonOptions) : (highlighter options).Leftmost :=
  Highlighter.leftmost_of_ofGrammar (ofGrammar_alakon options)

theorem isHighlighter_highlighter (options : AlakonOptions) :
    IsHighlighter options (highlighter options) where
  leftmost := inferInstance
  exists_rules := ⟨_, rfl, fun _ hp => avoids_of_mem_numberVariants hp⟩
  wordPattern := ⟨Pattern.avoids_of_avoids rfl, Pattern.avoids_of_avoids rfl⟩
  words := rfl

/-- The grammar of the language can be made ready, whatever it is built from. -/
theorem exists_ofGrammar (options : AlakonOptions) :
    ∃ h, Highlighter.ofGrammar Pattern.ofString? (alakon options) = .ok h ∧
      IsHighlighter options h :=
  ⟨_, ofGrammar_alakon options, isHighlighter_highlighter options⟩

theorem IsHighlighter.keepsToLines {options : AlakonOptions} {h : Highlighter}
    (hh : IsHighlighter options h) : h.KeepsToLines := by
  obtain ⟨variants, hrules, havoids⟩ := hh.exists_rules
  refine ⟨fun rule hrule => ?_, hh.wordPattern.1⟩
  rw [hrules] at hrule
  rcases List.mem_pair.mp hrule with rfl | rfl
  · exact .region (Pattern.avoids_of_avoids rfl) (Pattern.avoids_of_avoids rfl)
  · exact .pattern fun p hp => (havoids p hp).1

/-- An Alakon text is highlighted like its part up to an end of line, followed by the rest of it as
a text of its own. The end of line is plain, and one with plain text on both sides of it. -/
theorem exists_highlight_append (options : AlakonOptions) :
    ∃ h, Highlighter.ofGrammar Pattern.ofString? (alakon options) = .ok h ∧ ∀ a b : String,
      ∃ front start,
        h.highlight (a ++ "\n") = front ++ [⟨none, start, (a ++ "\n").utf8ByteSize⟩] ∧
        h.highlight (a ++ "\n" ++ b) =
          front ++ spansBehind start (a ++ "\n").utf8ByteSize (h.highlight b) := by
  obtain ⟨h, hread, hh⟩ := exists_ofGrammar options
  have := hh.leftmost
  exact ⟨h, hread, fun a b => hh.keepsToLines.highlight_append a b⟩

end Alakon

end CodeTint
