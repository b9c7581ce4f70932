import CodeTint.Text.Quoted

/-!
# Grammars

A grammar is plain data: the name of a language, its keywords, and an ordered list of rules for
tokens. It scans nothing itself.
-/

namespace CodeTint

/-! ## Categories

A category is the label of a classified piece of source text. Its name is the class name that host
engines use for it; the built-in words also go by the label `type`. -/

/-- The label of a classified piece of source text. -/
inductive Category where
  | string
  | number
  | keyword
  | builtIn
deriving Repr, DecidableEq

namespace Category

/-- Every category, in the order in which words of several categories are decided. -/
def all : List Category :=
  [string, number, keyword, builtIn]

def name : Category → String
  | string => "string"
  | number => "number"
  | keyword => "keyword"
  | builtIn => "built_in"

def ofLabel? (label : String) : Option Category :=
  match label with
  | "string" => some string
  | "number" => some number
  | "keyword" => some keyword
  | "built_in" => some builtIn
  | "type" => some builtIn
  | _ => none

end Category

/-! ## Keyword sets

The words that a grammar lists, in groups of one category each, and the pattern that finds
candidates for them in plain text. A word that several groups list belongs to the first of them. -/

/-- Words of one category, in the order of their declaration. -/
structure KeywordGroup where
  category : Category
  words : List String
deriving Repr, DecidableEq

/-- Groups of words and the pattern that finds candidates for them. -/
structure KeywordSet where
  pattern : String
  groups : List KeywordGroup
deriving Repr, DecidableEq

/-- The groups with words appended to the first group of the category, or with a new last group if
there is none. -/
def addToGroups (category : Category) (words : List String) : List KeywordGroup → List KeywordGroup
  | [] => [⟨category, words⟩]
  | group :: groups =>
    if group.category = category then ⟨category, group.words ++ words⟩ :: groups
    else group :: addToGroups category words groups

namespace KeywordSet

def ofPattern (pattern : String) : KeywordSet :=
  ⟨pattern, []⟩

def add (set : KeywordSet) (category : Category) (words : List String) : KeywordSet :=
  { set with groups := addToGroups category words set.groups }

/-- The words of one category, in the order of their declaration. -/
def wordsOf (set : KeywordSet) (category : Category) : List String :=
  (set.groups.filter (·.category = category)).flatMap (·.words)

/-- The category of a word: that of the first group that lists it. -/
def categoryOf? (set : KeywordSet) (word : String) : Option Category :=
  (set.groups.find? (·.words.contains word)).map (·.category)

end KeywordSet

/-! ## Host shapes

Host engines load grammars as JSON objects of one of two shapes, which differ in the names of keys
only. -/

/-- The shape of the grammar objects that a host engine loads. -/
inductive HostShape where
  | legacy
  | modern
deriving Repr, DecidableEq

namespace HostShape

def name : HostShape → String
  | legacy => "legacy"
  | modern => "modern"

def ofName (name : String) : Except String HostShape :=
  match name with
  | "legacy" => .ok legacy
  | "modern" => .ok modern
  | other => .error ("unknown host shape " ++ quoted other ++ " (expected legacy or modern)")

/-- The key that holds the category of a mode. -/
def classKey : HostShape → String
  | legacy => "className"
  | modern => "scope"

/-- The key that holds the pattern of a mode that matches at once. -/
def patternKey : HostShape → String
  | legacy => "begin"
  | modern => "match"

def label : HostShape → Category → String
  | modern, .builtIn => "type"
  | _, category => category.name

end HostShape

/-! ## Rules and grammars -/

/-- A token from an opening to the next closing. If `illegal` matches between the two, there is no
token. -/
structure RegionRule where
  category : Category
  opening : String
  closing : String
  illegal : Option String
deriving Repr, DecidableEq

/-- A token that one of several patterns matches; at the same place an earlier one is preferred. -/
structure PatternRule where
  category : Category
  variants : List String
deriving Repr, DecidableEq

/-- A rule for tokens of one category. -/
inductive Rule where
  | region (rule : RegionRule)
  | pattern (rule : PatternRule)
deriving Repr, DecidableEq

namespace Rule

def category : Rule → Category
  | region rule => rule.category
  | pattern rule => rule.category

end Rule

/-- What a host engine needs to highlight a language. -/
structure Grammar where
  name : String
  keywords : KeywordSet
  /-- The rules in the order of their precedence. -/
  rules : List Rule
  /-- The shape of host objects in which the grammar is written by itself. -/
  shape : HostShape
deriving Repr, DecidableEq

/-! ## The Alakon language

The grammar of Alakon, built from its lists of words and the form of its numbers. Two sets of
options are shipped under the names `classic` and `extended`. -/

/-- How the rule for numbers is declared. -/
inductive NumberForm where
  /-- Signed numbers, hexadecimal or with fraction and exponent. -/
  | baseMode
  /-- Plain decimal numbers. -/
  | singlePattern
deriving Repr, DecidableEq

/-- What the Alakon grammar is built from. -/
structure AlakonOptions where
  keywords : List String
  builtIns : List String
  number : NumberForm
  shape : HostShape
deriving Repr, DecidableEq

namespace AlakonOptions

/-- Few keywords, and numbers as host engines know them. -/
def classic : AlakonOptions where
  keywords := ["true", "false"]
  builtIns := ["String", "bool", "num"]
  number := .baseMode
  shape := .legacy

/-- The keywords of control flow as well, and plain numbers. -/
def extended : AlakonOptions where
  keywords := ["true", "false", "if", "else", "while"]
  builtIns := ["String", "bool", "num"]
  number := .singlePattern
  shape := .modern

end AlakonOptions

inductive Preset where
  | classic
  | extended
deriving Repr, DecidableEq

namespace Preset

def name : Preset → String
  | classic => "classic"
  | extended => "extended"

def ofName (name : String) : Except String Preset :=
  match name with
  | "classic" => .ok classic
  | "extended" => .ok extended
  | other => .error ("unknown grammar preset " ++ quoted other ++ " (expected classic or extended)")

def options : Preset → AlakonOptions
  | classic => .classic
  | extended => .extended

end Preset

namespace Alakon

def identifierPattern : String := "[A-Za-z][A-Za-z0-9_]*"

/-- A hexadecimal number with an optional sign. Edges of words are those of ASCII, so that a number
may follow a letter of another script. -/
def hexNumberPattern : String := "-?(?-u:\\b)0[xX][a-fA-F0-9]+"

/-- A decimal number with an optional sign, fraction and exponent. -/
def signedNumberPattern : String :=
  "-?((?-u:\\b)[0-9]+(\\.[0-9]*)?|\\.[0-9]+)([eE][-+]?[0-9]+)?"

/-- A decimal number with an optional fraction, and no word character on either side. -/
def plainNumberPattern : String := "(?-u:\\b)[0-9]+(\\.[0-9]+)?(?-u:\\b)"

/-- A text in double quotes that ends on the line on which it begins. -/
def stringRule : Rule :=
  .region ⟨.string, "\"", "\"", some "\\n"⟩

def numberRule : NumberForm → Rule
  | .baseMode => .pattern ⟨.number, [hexNumberPattern, signedNumberPattern]⟩
  | .singlePattern => .pattern ⟨.number, [plainNumberPattern]⟩

end Alakon

/-- The grammar of Alakon. Identifiers that are not listed get no rule: it would also match the
keywords. -/
def alakon (options : AlakonOptions) : Grammar where
  name := "Alakon"
  keywords :=
    ((KeywordSet.ofPattern Alakon.identifierPattern).add .keyword options.keywords).add .builtIn
      options.builtIns
  rules := [Alakon.stringRule, Alakon.numberRule options.number]
  shape := options.shape

end CodeTint
