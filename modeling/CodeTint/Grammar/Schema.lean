import CodeTint.Grammar.Basic
import CodeTint.Json.Decoder

/-!
# Grammars as JSON

How grammars and their parts are written as JSON values and read back.
-/

namespace CodeTint

open Decoder (choice record field list string option tagged)

/-! ## Names -/

def Category.toJson (category : Category) : Json :=
  .string category.name

/-- A category goes by its name, and the built-in words also by `type`. -/
def Category.decoder : Decoder Category :=
  choice [.plain ["string"] .string, .plain ["number"] .number, .plain ["keyword"] .keyword,
    .plain ["built_in", "type"] .builtIn]

def HostShape.toJson (shape : HostShape) : Json :=
  .string shape.name

def HostShape.decoder : Decoder HostShape :=
  choice [.plain ["legacy"] .legacy, .plain ["modern"] .modern]

def Preset.toJson (preset : Preset) : Json :=
  .string preset.name

def Preset.decoder : Decoder Preset :=
  choice [.plain ["classic"] .classic, .plain ["extended"] .extended]

def NumberForm.name : NumberForm → String
  | .baseMode => "base_mode"
  | .singlePattern => "single_pattern"

def NumberForm.toJson (form : NumberForm) : Json :=
  .string form.name

def NumberForm.decoder : Decoder NumberForm :=
  choice [.plain ["base_mode"] .baseMode, .plain ["single_pattern"] .singlePattern]

/-! ## Keywords -/

def KeywordGroup.toJson (group : KeywordGroup) : Json :=
  .ofMembers [("category", group.category.toJson), ("words", .ofStrings group.words)]

def KeywordGroup.decoder : Decoder KeywordGroup :=
  record [
    field "category" true Category.decoder fun category group => { group with category },
    field "words" true (list string) fun words group => { group with words }]
    ⟨.string, []⟩

def KeywordSet.toJson (set : KeywordSet) : Json :=
  .ofMembers [("pattern", .string set.pattern), ("groups", .array (set.groups.map (·.toJson)))]

def KeywordSet.decoder : Decoder KeywordSet :=
  record [
    field "pattern" true string fun pattern set => { set with pattern },
    field "groups" true (list KeywordGroup.decoder) fun groups set => { set with groups }]
    ⟨"", []⟩

/-! ## Rules -/

/-- A rule tells its kind; a region without illegal text has no member for it. -/
def Rule.toJson : Rule → Json
  | .region rule =>
    .ofMembers ([("kind", .string "region"), ("category", rule.category.toJson),
      ("begin", .string rule.opening), ("end", .string rule.closing)]
      ++ Json.optionalMember "illegal" rule.illegal)
  | .pattern rule =>
    .ofMembers [("kind", .string "pattern"), ("category", rule.category.toJson),
      ("variants", .ofStrings rule.variants)]

def RegionRule.decoder : Decoder RegionRule :=
  record [
    field "category" true Category.decoder fun category rule => { rule with category },
    field "begin" true string fun opening rule => { rule with opening },
    field "end" true string fun closing rule => { rule with closing },
    field "illegal" false (option string) fun illegal rule => { rule with illegal }]
    ⟨.string, "", "", none⟩

def PatternRule.decoder : Decoder PatternRule :=
  record [
    field "category" true Category.decoder fun category rule => { rule with category },
    field "variants" true (list string) fun variants rule => { rule with variants }]
    ⟨.string, []⟩

/-- The member `kind` tells how the others are read. -/
def Rule.decoder : Decoder Rule :=
  tagged "kind" [
    ("region", fun reading draft => .region <$> RegionRule.decoder reading draft),
    ("pattern", fun reading draft => .pattern <$> PatternRule.decoder reading draft)]

/-! ## Grammars -/

def Grammar.toJson (grammar : Grammar) : Json :=
  .ofMembers [("name", .string grammar.name), ("keywords", grammar.keywords.toJson),
    ("rules", .array (grammar.rules.map (·.toJson))), ("shape", grammar.shape.toJson)]

/-- A grammar that names no shape has the legacy one. -/
def Grammar.decoder : Decoder Grammar :=
  record [
    field "name" true string fun name grammar => { grammar with name },
    field "keywords" true KeywordSet.decoder fun keywords grammar => { grammar with keywords },
    field "rules" true (list Rule.decoder) fun rules grammar => { grammar with rules },
    field "shape" false HostShape.decoder fun shape grammar => { grammar with shape }]
    ⟨"", ⟨"", []⟩, [], .legacy⟩

def AlakonOptions.toJson (options : AlakonOptions) : Json :=
  .ofMembers [("keywords", .ofStrings options.keywords), ("built_ins", .ofStrings options.builtIns),
    ("number", options.number.toJson), ("shape", options.shape.toJson)]

/-- Options that are not given are those of `classic`. -/
def AlakonOptions.decoder : Decoder AlakonOptions :=
  record [
    field "keywords" false (list string) fun keywords options => { options with keywords },
    field "built_ins" false (list string) fun builtIns options => { options with builtIns },
    field "number" false NumberForm.decoder fun number options => { options with number },
    field "shape" false HostShape.decoder fun shape options => { options with shape }]
    .classic

end CodeTint
