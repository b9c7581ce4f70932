import CodeTint.Grammar.Basic
import CodeTint.Json.Basic
import CodeTint.Json.Decoder
import CodeTint.Text.Chars

/-!
# Host objects

Host engines load grammars as JSON objects. A grammar is written as an object of a given shape, and
an object of either shape, or of a mix of both, gives a grammar.
-/

namespace CodeTint

/-! ## Grammars as host objects

The JSON object in which a host engine of a given shape loads a grammar. -/

/-- The key of the pattern among the lists of words. -/
def keywordPatternKey : String := "$pattern"

/-- The lists of words under the labels of their categories, and the pattern. If two groups have the
same category, the later one remains. -/
def KeywordSet.toHost (set : KeywordSet) (shape : HostShape) : Json :=
  .ofMembers (set.groups.map (fun group => (shape.label group.category, Json.ofStrings group.words))
    ++ [(keywordPatternKey, .string set.pattern)])

def patternMember (shape : HostShape) (pattern : String) : String × Json :=
  (shape.patternKey, .string pattern)

/-- What a rule says besides its category. A region is written as the only variant of its mode, and
so are several patterns as variants; a single pattern stands in the mode itself. -/
def Rule.hostMembers (shape : HostShape) : Rule → List (String × Json)
  | .region rule =>
    [("variants", .array [.ofMembers
      ([("begin", .string rule.opening), ("end", .string rule.closing)]
        ++ Json.optionalMember "illegal" rule.illegal)])]
  | .pattern rule =>
    match rule.variants with
    | [variant] => [patternMember shape variant]
    | variants =>
      [("variants", .array (variants.map fun variant => .ofMembers [patternMember shape variant]))]

def Rule.toHost (shape : HostShape) (rule : Rule) : Json :=
  .ofMembers ((shape.classKey, .string (shape.label rule.category)) :: rule.hostMembers shape)

/-- The object that a host engine of the given shape loads. -/
def Grammar.toHost (grammar : Grammar) (shape : HostShape) : Json :=
  .ofMembers [
    ("name", .string grammar.name),
    ("keywords", grammar.keywords.toHost shape),
    ("contains", .array (grammar.rules.map (Rule.toHost shape)))]

/-- The object for a host engine as a text over several lines. -/
def Grammar.toHostText (grammar : Grammar) (shape : HostShape) : String :=
  (grammar.toHost shape).pretty

/-! ## Grammars from host objects

A host object of either shape, or of a mix of both, gives a grammar. The object is first read as it
stands (`HostGrammar`), and what it declares is then turned into keywords and rules: its groups of
words come in the order of `Category.all`, and the patterns of one mode become one rule. -/

/-! ### Host objects as they stand -/

/-- A list of words, or a text with blanks between the words. -/
inductive WordList where
  | list (words : List String)
  | spaced (text : String)
deriving Repr, DecidableEq

/-- The lists of words of a host object in the order of their labels, and the pattern if there is
one. -/
structure HostKeywords where
  pattern : Option String
  lists : List (String × WordList)
deriving Repr, DecidableEq

/-- What a mode declares by itself, apart from its variants. -/
structure HostKeys where
  label : Option String
  opening : Option String
  closing : Option String
  illegal : Option String
  pattern : Option String
deriving Repr, DecidableEq

inductive HostMode where
  | mk (keys : HostKeys) (variants : List HostMode)

structure HostGrammar where
  name : String
  keywords : Option HostKeywords
  modes : List HostMode

def optionalText? : Json → Option (Option String)
  | .null => some none
  | .string text => some (some text)
  | _ => none

def text? : Json → Option String
  | .string text => some text
  | _ => none

def WordList.words : WordList → List String
  | list words => words
  | spaced text => splitOnBlanks text

/-- A list of words is written as an array of texts or as one text. -/
def WordList.ofJson? : Json → Option WordList
  | .string text => some (.spaced text)
  | .array items => (items.mapM text?).map .list
  | _ => none

/-- The members of the object under `keywords`: all but the pattern have to be lists of words. -/
def HostKeywords.ofMembers? : List (String × Json) → Option HostKeywords
  | [] => some ⟨none, []⟩
  | (name, value) :: members => do
    let keywords ← ofMembers? members
    if name = keywordPatternKey then return { keywords with pattern := ← optionalText? value }
    else return { keywords with lists := putMember name (← WordList.ofJson? value) keywords.lists }

/-- The object under `keywords`, or `null` for none. -/
def HostKeywords.ofJson? : Json → Option (Option HostKeywords)
  | .null => some none
  | .object members => (ofMembers? members).map some
  | _ => none

namespace HostKeys

def empty : HostKeys := ⟨none, none, none, none, none⟩

/-- The keys with the key of the given name set, if there is such a key; its value is a text or
`null`. -/
def set? (keys : HostKeys) (name : String) (value : Json) : Option HostKeys :=
  match name with
  | "className" => (optionalText? value).map fun label => { keys with label }
  | "scope" => (optionalText? value).map fun label => { keys with label }
  | "begin" => (optionalText? value).map fun opening => { keys with opening }
  | "end" => (optionalText? value).map fun closing => { keys with closing }
  | "illegal" => (optionalText? value).map fun illegal => { keys with illegal }
  | "match" => (optionalText? value).map fun pattern => { keys with pattern }
  | _ => some keys

end HostKeys

/-- The names of the keys in the order in which an array gives them. -/
def hostKeyNames : List String :=
  ["className", "begin", "end", "illegal", "match"]

mutual

/-- A mode is written as an object, or as the array of its keys and its variants. The label of an
object has two names, of which only one may be given. -/
def HostMode.ofJson? : Json → Option HostMode
  | .object members =>
    if (members.any (·.1 = "className")) && (members.any (·.1 = "scope")) then none
    else (hostModeMembers? members).map fun (keys, variants) => .mk keys variants
  | .array items =>
    (hostModeItems? hostKeyNames items).map fun (keys, variants) => .mk keys variants
  | _ => none

def hostModes? : List Json → Option (List HostMode)
  | [] => some []
  | item :: items => do
    let mode ← HostMode.ofJson? item
    return mode :: (← hostModes? items)

/-- The keys and variants among the members of a mode. -/
def hostModeMembers? : List (String × Json) → Option (HostKeys × List HostMode)
  | [] => some (.empty, [])
  | (name, value) :: members => do
    let (keys, variants) ← hostModeMembers? members
    if name = "variants" then
      match value with
      | .array items => return (keys, ← hostModes? items)
      | _ => none
    else return (← keys.set? name value, variants)

/-- The keys and variants among the items of a mode, of which the last ones may be missing. -/
def hostModeItems? : (names : List String) → List Json → Option (HostKeys × List HostMode)
  | _, [] => some (.empty, [])
  | name :: names, item :: items => do
    let (keys, variants) ← hostModeItems? names items
    return (← keys.set? name item, variants)
  | [], [.array variants] => (hostModes? variants).map (HostKeys.empty, ·)
  | [], _ => none

end

/-- A host object is written as an object, or as the array of its name, keywords and modes. -/
def HostGrammar.ofJson? (value : Json) : Option HostGrammar := do
  let (name, keywords, modes) ←
    match value with
    | .object members =>
      some ((members.lookup "name").getD .null, (members.lookup "keywords").getD .null,
        (members.lookup "contains").getD (.array []))
    | .array [name] => some (name, Json.null, Json.array [])
    | .array [name, keywords] => some (name, keywords, Json.array [])
    | .array [name, keywords, modes] => some (name, keywords, modes)
    | _ => none
  let name ← text? name
  let keywords ← HostKeywords.ofJson? keywords
  match modes with
  | .array items => return ⟨name, keywords, ← hostModes? items⟩
  | _ => none

/-! ### What a host object declares -/

inductive ModeError where
  | noPattern
  | noCategory
  | unknownCategory (label : String)
deriving Repr, DecidableEq

namespace ModeError

def message : ModeError → String
  | noPattern => "mode declares no begin, match or variants"
  | noCategory => "mode has neither className nor scope"
  | unknownCategory label => "unsupported mode category " ++ quoted label

end ModeError

inductive Declaration where
  | region (opening closing : String) (illegal : Option String)
  | pattern (pattern : String)
deriving Repr, DecidableEq

namespace HostKeys

/-- The keys of a variant, with those that are not given taken from the mode that it belongs to. -/
def inherit (keys parent : HostKeys) : HostKeys where
  label := keys.label
  opening := keys.opening.or parent.opening
  closing := keys.closing.or parent.closing
  illegal := keys.illegal.or parent.illegal
  pattern := keys.pattern.or parent.pattern

/-- What the keys declare. A pattern to match at once counts before all others. -/
def declaration (keys : HostKeys) : Except ModeError Declaration :=
  match keys.pattern, keys.opening, keys.closing with
  | some pattern, _, _ => .ok (.pattern pattern)
  | none, some opening, some closing => .ok (.region opening closing keys.illegal)
  | none, some opening, none => .ok (.pattern opening)
  | none, none, _ => .error .noPattern

def category (keys : HostKeys) : Except ModeError Category :=
  match keys.label with
  | none => .error .noCategory
  | some label =>
    match Category.ofLabel? label with
    | some category => .ok category
    | none => .error (.unknownCategory label)

end HostKeys

/-- The rule with one more variant, if it is one for patterns. -/
def Rule.addVariant (pattern : String) : Rule → Rule
  | .region rule => .region rule
  | .pattern rule => .pattern { rule with variants := rule.variants ++ [pattern] }

/-- The rules that a mode has given so far, and the place among them of the rule for its patterns,
once there is one. -/
structure ModeRules where
  rules : List Rule
  slot : Option Nat
deriving Repr, DecidableEq

namespace ModeRules

def empty : ModeRules := ⟨[], none⟩

/-- The rules with one more declaration. A region is a rule of its own; a pattern joins the rule at
the remembered place. -/
def add (category : Category) (state : ModeRules) : Declaration → ModeRules
  | .region opening closing illegal =>
    { state with rules := state.rules ++ [.region ⟨category, opening, closing, illegal⟩] }
  | .pattern pattern =>
    match state.slot with
    | some slot => { state with rules := state.rules.modify slot (·.addVariant pattern) }
    | none => ⟨state.rules ++ [.pattern ⟨category, [pattern]⟩], some state.rules.length⟩

end ModeRules

namespace HostMode

/-- The declarations of the variants of a mode, or of the mode itself if it has none. Variants of
variants declare nothing. -/
def declarations : HostMode → Except ModeError (List Declaration)
  | mk keys [] => keys.declaration.map ([·])
  | mk keys variants => variants.mapM fun (mk own _) => (own.inherit keys).declaration

def rules (mode : HostMode) : Except ModeError (List Rule) := do
  let (mk keys _) := mode
  let category ← keys.category
  return ((← mode.declarations).foldl (ModeRules.add category) .empty).rules

end HostMode

/-- The word pattern of a grammar that declares none. -/
def defaultKeywordPattern : String := "\\w+"

/-- The keyword set of a host object. All lists are gone through for one category after the other,
so that the order of the labels does not decide between categories; labels that mean no category are
left out. -/
def HostKeywords.toKeywordSet (keywords : HostKeywords) : KeywordSet :=
  Category.all.foldl
    (fun set category =>
      keywords.lists.foldl
        (fun set (label, list) =>
          if Category.ofLabel? label = some category then set.add category list.words else set)
        set)
    (.ofPattern (keywords.pattern.getD defaultKeywordPattern))

/-- The shape that a host object seems to be written for: keys of the modern shape among its
keywords or its modes tell. -/
def HostShape.detect (value : Json) : HostShape :=
  let hasTypeLabel := ((value.get? "keywords").bind (·.get? "type")).isSome
  let hasModernMode :=
    match value.get? "contains" with
    | some (.array modes) =>
      modes.any fun mode => (mode.get? "scope").isSome || (mode.get? "match").isSome
    | _ => false
  if hasTypeLabel || hasModernMode then .modern else .legacy

/-! ### Import -/

inductive ImportError where
  | notJson (fault : Fault)
  | notHostObject
  /-- The mode at the given place of the named grammar gives no rules. -/
  | badMode (index : Nat) (name : String) (cause : ModeError)
deriving Repr, DecidableEq

namespace ImportError

def message : ImportError → String
  | notJson _ => "Host grammar is not valid JSON"
  | notHostObject => "Malformed host grammar object"
  | badMode index name cause =>
    "Invalid mode #" ++ toString index ++ " in grammar " ++ quoted name ++ ": " ++ cause.message

end ImportError

/-- The rules of the modes, of which the first one stands at the given place. -/
def rulesOfModes (name : String) : (index : Nat) → List HostMode → Except ImportError (List Rule)
  | _, [] => .ok []
  | index, mode :: modes =>
    match mode.rules with
    | .error cause => .error (.badMode index name cause)
    | .ok rules => (rulesOfModes name (index + 1) modes).map (rules ++ ·)

def HostGrammar.toGrammar (host : HostGrammar) (shape : HostShape) :
    Except ImportError Grammar := do
  let keywords :=
    match host.keywords with
    | some keywords => keywords.toKeywordSet
    | none => .ofPattern defaultKeywordPattern
  return ⟨host.name, keywords, ← rulesOfModes host.name 0 host.modes, shape⟩

/-- The grammar of a host object of either shape. -/
def Grammar.ofHost (value : Json) : Except ImportError Grammar :=
  match HostGrammar.ofJson? value with
  | some host => host.toGrammar (HostShape.detect value)
  | none => .error .notHostObject

/-- The grammar of a host object that is given as a text. -/
def Grammar.ofHostText (text : String) : Except ImportError Grammar :=
  match Decoder.json.ofText text with
  | .ok value => Grammar.ofHost value
  | .error fault => .error (.notJson fault)

end CodeTint
