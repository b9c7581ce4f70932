import CodeTint.Grammar.Schema
import CodeTint.Proofs.Json.Decoding
import CodeTint.Proofs.Json.Texts

/-!
# Grammars through JSON

A grammar says in JSON all that there is to it: whoever reads what was written, as a value or as a
text, has the grammar again (`Grammar.decoder_toJson`). A text may list the members of its objects
in any order, since the order in which a record declares its fields is not that of their names. This
is settled part by part, each with one lemma that says what is made of its JSON form.
-/

namespace CodeTint

open Decoder (decodes_choice decodes_list decodes_record decodes_string decodes_strings
  decodes_tagged)

/-! ## Names and keywords -/

theorem Category.decodes_toJson (category : Category) (depth : Nat) :
    Category.decoder.Decodes depth category.toJson category := by
  cases category <;> exact decodes_choice rfl

theorem HostShape.decodes_toJson (shape : HostShape) (depth : Nat) :
    HostShape.decoder.Decodes depth shape.toJson shape := by
  cases shape <;> exact decodes_choice rfl

theorem KeywordGroup.decodes_toJson (group : KeywordGroup) (depth : Nat) :
    KeywordGroup.decoder.Decodes (depth + 2) group.toJson group := by
  refine decodes_record (.given (group.category.decodes_toJson _)
    (.given (decodes_strings _ group.words) .nil)) (by decide) ?_ rfl rfl
  simp [Decoder.Given.Commutes]

theorem KeywordSet.decodes_toJson (set : KeywordSet) (depth : Nat) :
    KeywordSet.decoder.Decodes (depth + 4) set.toJson set := by
  refine decodes_record (.given (decodes_string _ set.pattern)
    (.given (decodes_list fun group _ => group.decodes_toJson depth) .nil)) (by decide) ?_ rfl rfl
  simp [Decoder.Given.Commutes]

theorem KeywordGroup.isPlain_toJson (group : KeywordGroup) (depth : Nat) :
    group.toJson.IsPlain (depth + 2) :=
  Json.isPlain_ofMembers (List.forall_mem_cons.mpr ⟨.string _ group.category.name,
    List.forall_mem_singleton.mpr (Json.isPlain_ofStrings group.words)⟩)

theorem KeywordSet.isPlain_toJson (set : KeywordSet) (depth : Nat) :
    set.toJson.IsPlain (depth + 4) := by
  refine Json.isPlain_ofMembers (List.forall_mem_cons.mpr ⟨.string _ set.pattern,
    List.forall_mem_singleton.mpr (.array fun item hitem => ?_)⟩)
  obtain ⟨group, -, rfl⟩ := List.mem_map.mp hitem
  exact group.isPlain_toJson depth

/-! ## Rules -/

def Rule.kind : Rule → String
  | .region _ => "region"
  | .pattern _ => "pattern"

def Rule.members : Rule → List (String × Json)
  | .region rule => [("category", rule.category.toJson), ("begin", .string rule.opening),
      ("end", .string rule.closing)] ++ Json.optionalMember "illegal" rule.illegal
  | .pattern rule => [("category", rule.category.toJson), ("variants", .ofStrings rule.variants)]

theorem RegionRule.decodes_members (rule : RegionRule) (depth : Nat) :
    RegionRule.decoder.Decodes (depth + 1) (.ofMembers (Rule.region rule).members) rule := by
  obtain ⟨category, opening, closing, illegal⟩ := rule
  cases illegal with
  | none =>
      refine decodes_record (.given (category.decodes_toJson _) (.given (decodes_string _ opening)
        (.given (decodes_string _ closing) (.left_out rfl .nil)))) (by decide) ?_ rfl rfl
      simp [Decoder.Given.Commutes]
  | some illegal =>
      have hillegal := (decodes_string depth illegal).option nofun
      refine decodes_record (.given (category.decodes_toJson _) (.given (decodes_string _ opening)
        (.given (decodes_string _ closing) (.given hillegal .nil)))) (by decide) ?_ rfl rfl
      simp [Decoder.Given.Commutes]

theorem PatternRule.decodes_members (rule : PatternRule) (depth : Nat) :
    PatternRule.decoder.Decodes (depth + 2) (.ofMembers (Rule.pattern rule).members) rule := by
  refine decodes_record (.given (rule.category.decodes_toJson _)
    (.given (decodes_strings _ rule.variants) .nil)) (by decide) ?_ rfl rfl
  simp [Decoder.Given.Commutes]

theorem Rule.nodup_members (rule : Rule) :
    ((("kind", Json.string rule.kind) :: rule.members).map (·.1)).Nodup := by
  match rule with
  | .region ⟨_, _, _, none⟩ =>
      show ["kind", "category", "begin", "end"].Nodup
      decide
  | .region ⟨_, _, _, some _⟩ =>
      show ["kind", "category", "begin", "end", "illegal"].Nodup
      decide
  | .pattern _ =>
      show ["kind", "category", "variants"].Nodup
      decide

theorem Rule.isPlain_members (rule : Rule) (depth : Nat) :
    ∀ member ∈ rule.members, member.2.IsPlain (depth + 1) := by
  intro member hmember
  cases rule with
  | region rule =>
      rcases List.mem_append.mp hmember with hmember | hmember
      · simp only [List.mem_cons, List.not_mem_nil, or_false] at hmember
        rcases hmember with rfl | rfl | rfl <;> exact .string _ _
      · exact Json.isPlain_optionalMember member hmember
  | pattern rule =>
      rcases List.mem_pair.mp hmember with rfl | rfl
      · exact .string _ rule.category.name
      · exact Json.isPlain_ofStrings rule.variants

theorem Rule.toJson_eq (rule : Rule) :
    rule.toJson = .ofMembers (("kind", .string rule.kind) :: rule.members) := by
  cases rule <;> rfl

theorem Rule.isPlain_toJson (rule : Rule) (depth : Nat) : rule.toJson.IsPlain (depth + 2) := by
  rw [rule.toJson_eq]
  exact Json.isPlain_ofMembers (List.forall_mem_cons.mpr ⟨.string _ rule.kind,
    rule.isPlain_members depth⟩)

theorem Rule.decodes_toJson (rule : Rule) (depth : Nat) :
    Rule.decoder.Decodes (depth + 2) rule.toJson rule := by
  have htextual : ∀ member ∈ rule.members, member.2.IsTextual (depth + 1) :=
    fun member hmember => (rule.isPlain_members depth member hmember).isTextual
  have hnames := rule.nodup_members
  rw [rule.toJson_eq]
  cases rule with
  | region rule =>
      exact decodes_tagged rfl hnames htextual ((rule.decodes_members _).map Rule.region)
  | pattern rule =>
      exact decodes_tagged rfl hnames htextual ((rule.decodes_members _).map Rule.pattern)

def Rule.illegal? : Rule → Option String
  | .region rule => rule.illegal
  | .pattern _ => none

/-- A rule says what is illegal in it if it has such a text, and is silent about it otherwise. -/
theorem Rule.get?_illegal_toJson (rule : Rule) :
    rule.toJson.get? "illegal" = rule.illegal?.map .string := by
  rw [rule.toJson_eq, Json.get?_ofMembers]
  match rule with
  | .region ⟨_, _, _, none⟩ => rfl
  | .region ⟨_, _, _, some _⟩ => rfl
  | .pattern _ => rfl

/-! ## Members as they are declared -/

def KeywordGroup.asDeclared (group : KeywordGroup) : Json :=
  .object [("category", group.category.toJson), ("words", .ofStrings group.words)]

theorem KeywordGroup.toJson_reorders (group : KeywordGroup) :
    group.toJson.Reorders group.asDeclared :=
  Json.ofMembers_reorders (by simp) (.cons (.refl _) (.cons (.refl _) .nil))

def KeywordSet.asDeclared (set : KeywordSet) : Json :=
  .object [("pattern", .string set.pattern), ("groups", .array (set.groups.map (·.asDeclared)))]

theorem KeywordSet.toJson_reorders (set : KeywordSet) : set.toJson.Reorders set.asDeclared := by
  have hgroups := Json.array_reorders set.groups fun group _ => group.toJson_reorders
  exact Json.ofMembers_reorders (by simp) (.cons (.refl _) (.cons (.mk _ hgroups) .nil))

def Rule.asDeclared (rule : Rule) : Json :=
  .object (("kind", .string rule.kind) :: rule.members)

theorem Rule.toJson_reorders (rule : Rule) : rule.toJson.Reorders rule.asDeclared := by
  rw [rule.toJson_eq]
  exact Json.ofMembers_reorders rule.nodup_members (List.forall₂_same.mpr fun _ _ => .refl _)

/-- A region without illegal text, with its kind first. -/
example : (Rule.region ⟨.builtIn, "<", ">", none⟩).asDeclared.compact =
    "\x7b\"kind\":\"region\",\"category\":\"built_in\",\"begin\":\"<\",\"end\":\">\"\x7d" :=
  rfl

/-! ## Grammars -/

namespace Grammar

/-- The JSON form with the members of every object in the order in which they are declared. -/
def asDeclared (grammar : Grammar) : Json :=
  .object [("name", .string grammar.name), ("keywords", grammar.keywords.asDeclared),
    ("rules", .array (grammar.rules.map (·.asDeclared))), ("shape", grammar.shape.toJson)]

theorem toJson_reorders (grammar : Grammar) : grammar.toJson.Reorders grammar.asDeclared := by
  have hrules := Json.array_reorders grammar.rules fun rule _ => rule.toJson_reorders
  exact Json.ofMembers_reorders (by simp) (.cons (.refl _)
    (.cons (.mk _ grammar.keywords.toJson_reorders) (.cons (.mk _ hrules) (.cons (.refl _) .nil))))

theorem isPlain_toJson (grammar : Grammar) : grammar.toJson.IsPlain 5 := by
  have hrules : (Json.array (grammar.rules.map (·.toJson))).IsPlain 4 := by
    refine .array fun item hitem => ?_
    obtain ⟨rule, -, rfl⟩ := List.mem_map.mp hitem
    exact rule.isPlain_toJson 1
  exact Json.isPlain_ofMembers (List.forall_mem_cons.mpr ⟨.string _ grammar.name,
    List.forall_mem_cons.mpr ⟨grammar.keywords.isPlain_toJson 0, List.forall_mem_cons.mpr ⟨hrules,
      List.forall_mem_singleton.mpr (.string _ grammar.shape.name)⟩⟩⟩)

theorem decodes_toJson (grammar : Grammar) (depth : Nat) :
    Grammar.decoder.Decodes (depth + 5) grammar.toJson grammar := by
  refine decodes_record (.given (decodes_string _ grammar.name)
    (.given (grammar.keywords.decodes_toJson _) (.given
      (decodes_list fun rule _ => rule.decodes_toJson _)
        (.given (grammar.shape.decodes_toJson _) .nil)))) (by decide) ?_ rfl rfl
  simp [Decoder.Given.Commutes]

/-- A grammar comes back from its JSON form, from the value as well as from a compact or a pretty
text of it, in whatever order the members of objects are written there; the order in which they are
declared is one of those. The form says of each rule what is illegal in it, and leaves that out for
a region that has no such text. -/
theorem decoder_toJson (grammar : Grammar) :
    decoder.ofJson grammar.toJson = .ok grammar ∧
      (∀ written, grammar.toJson.Reorders written →
        decoder.ofJson written = .ok grammar ∧ decoder.ofText written.compact = .ok grammar ∧
          decoder.ofText written.pretty = .ok grammar) ∧
      grammar.toJson.Reorders grammar.asDeclared ∧
      grammar.toJson.get? "rules" = some (.array (grammar.rules.map (·.toJson))) ∧
      ∀ rule ∈ grammar.rules, rule.toJson.get? "illegal" = rule.illegal?.map .string := by
  have hdecodes := grammar.decodes_toJson 0
  refine ⟨hdecodes.ofJson (.same _), fun written hwritten => ?_, grammar.toJson_reorders,
    Json.get?_ofMembers _ _, fun rule _ => rule.get?_illegal_toJson⟩
  have htextual := grammar.isPlain_toJson.isTextual.of_reorders hwritten
  exact ⟨hdecodes.ofJson hwritten,
    hdecodes.ofText (by decide) hwritten (Json.spelledBy_compact htextual),
    hdecodes.ofText (by decide) hwritten (Json.spelledBy_pretty htextual)⟩

/-- Groups of one category, lists without words and variants, and both kinds of regions. -/
def patchwork : Grammar :=
  ⟨"patch\nwork", ⟨"\\w+", [⟨.builtIn, []⟩, ⟨.keyword, ["if", "é"]⟩, ⟨.builtIn, ["\t\""]⟩]⟩,
    [.pattern ⟨.number, []⟩, .region ⟨.string, "\"", "\"", some "\\n"⟩,
      .region ⟨.string, "'", "'", none⟩], .modern⟩

/-- The text in the declared order is read, and one region is silent about what is illegal in it. -/
theorem decoder_toJson_patchwork :
    patchwork.toJson.Reorders patchwork.asDeclared ∧
      decoder.ofText patchwork.asDeclared.compact = .ok patchwork ∧
      (Rule.region ⟨.string, "'", "'", none⟩).toJson.get? "illegal" = none := by
  obtain ⟨-, hwritten, hdeclared, -, hillegal⟩ := decoder_toJson patchwork
  have hregion : Rule.region ⟨.string, "'", "'", none⟩ ∈ patchwork.rules := by decide
  exact ⟨hdeclared, (hwritten _ hdeclared).2.1, hillegal _ hregion⟩

end Grammar

end CodeTint
