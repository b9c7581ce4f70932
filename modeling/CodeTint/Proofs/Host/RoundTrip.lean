import Mathlib.Data.List.Lattice
import Mathlib.Data.List.Nodup
import Mathlib.Data.List.Pairwise
import CodeTint.Proofs.Highlight.Words
import CodeTint.Proofs.Host.Keywords
import CodeTint.Proofs.Host.Modes

/-!
# Grammars through host objects

What becomes of a grammar that is written to a host object of a shape and read back
(`Grammar.ofHost_toHost`). The name, the keyword pattern and the rules stay. The words of a category
are those of its last group, and the groups come in the order of the categories. The shape is
guessed from the keys, and a grammar that has neither rules nor built-in words is written without a
key that tells the modern shape.
-/

namespace CodeTint

/-! ## The shape -/

/-- The mode of a rule has a key of the modern shape if and only if it is written for that shape. -/
theorem Rule.isSome_get?_toHost (rule : Rule) (shape : HostShape) :
    (((rule.toHost shape).get? "scope").isSome || ((rule.toHost shape).get? "match").isSome) =
      decide (shape = .modern) := by
  match rule with
  | .region ⟨_, _, _, illegal⟩ => cases shape <;> cases illegal <;> rfl
  | .pattern ⟨_, []⟩ => cases shape <;> rfl
  | .pattern ⟨_, [_]⟩ => cases shape <;> rfl
  | .pattern ⟨_, _ :: _ :: _⟩ => cases shape <;> rfl

theorem KeywordSet.isSome_get?_type_toHost (set : KeywordSet) (shape : HostShape) :
    ((set.toHost shape).get? "type").isSome =
      (decide (shape = .modern) && set.groups.any (·.category = .builtIn)) := by
  have hlabel : "type" ∈ Category.builtIn.labels := by decide
  rw [get?_toHost (Category.ne_keywordPatternKey_of_mem_labels hlabel), Option.isSome_map,
    findRev?_of_mem_labels set.groups hlabel]
  cases shape with
  | legacy => rfl
  | modern =>
      change (set.groups.findRev? (·.category = .builtIn)).isSome = _
      rw [List.findRev?_eq_find?_reverse, Bool.eq_iff_iff]
      simp

namespace Grammar

/-- The shape in which a grammar comes back: nothing tells the modern shape if there is no rule and
no group of built-in words. -/
def shapeFromHost (grammar : Grammar) (shape : HostShape) : HostShape :=
  if grammar.rules = [] ∧ ¬ grammar.keywords.groups.any (·.category = .builtIn) then .legacy
  else shape

theorem toHost_eq (grammar : Grammar) (shape : HostShape) :
    grammar.toHost shape = .object [
      ("contains", .array (grammar.rules.map (Rule.toHost shape))),
      ("keywords", grammar.keywords.toHost shape),
      ("name", .string grammar.name)] := rfl

theorem detect_toHost (grammar : Grammar) (shape : HostShape) :
    HostShape.detect (grammar.toHost shape) = grammar.shapeFromHost shape := by
  have hkeywords : (grammar.toHost shape).get? "keywords" =
      some (grammar.keywords.toHost shape) := by
    rw [toHost_eq]
    rfl
  have hmodes : (grammar.toHost shape).get? "contains" =
      some (.array (grammar.rules.map (Rule.toHost shape))) := by
    rw [toHost_eq]
    rfl
  simp only [HostShape.detect, hkeywords, hmodes, Option.bind_some,
    KeywordSet.isSome_get?_type_toHost, List.any_map, Function.comp_def, Rule.isSome_get?_toHost]
  cases shape with
  | legacy => simp [shapeFromHost]
  | modern =>
      rw [shapeFromHost]
      cases grammar.keywords.groups.any (·.category = .builtIn) <;> cases grammar.rules <;> rfl

/-! ## The grammar -/

theorem ofJson?_toHost (grammar : Grammar) (shape : HostShape) :
    ∃ keywords, HostGrammar.ofJson? (grammar.toHost shape) =
        some ⟨grammar.name, some keywords, grammar.rules.map (Rule.hostMode shape)⟩ ∧
      keywords.toKeywordSet =
        ⟨grammar.keywords.pattern, KeywordSet.lastGroups grammar.keywords.groups⟩ := by
  obtain ⟨keywords, hkeywords, hset⟩ := KeywordSet.exists_toKeywordSet_eq grammar.keywords shape
  refine ⟨keywords, ?_, hset⟩
  have hmodes := hostModes?_map (HostMode.ofJson?_toHost shape) grammar.rules
  rw [toHost_eq, HostGrammar.ofJson?]
  simp [List.lookup_cons, text?, hkeywords, hmodes]

/-- A grammar that is written to a host object comes back with the last group of each category in
the order of the categories and the shape that its keys tell, unless a rule of it is void: then the
place of the first one is reported. -/
theorem ofHost_toHost (grammar : Grammar) (shape : HostShape) :
    Grammar.ofHost (grammar.toHost shape) =
      match grammar.rules.findIdx? Rule.isVoid with
      | some index => .error (.badMode index grammar.name .noPattern)
      | none => .ok {
          name := grammar.name
          keywords := ⟨grammar.keywords.pattern, KeywordSet.lastGroups grammar.keywords.groups⟩
          rules := grammar.rules
          shape := grammar.shapeFromHost shape } := by
  obtain ⟨keywords, hhost, hset⟩ := ofJson?_toHost grammar shape
  rw [ofHost, hhost]
  simp only [HostGrammar.toGrammar, rulesOfModes_map_hostMode, Nat.zero_add, hset, detect_toHost]
  cases grammar.rules.findIdx? Rule.isVoid with
  | none => rfl
  | some index => rfl

/-- Of the two groups of keywords the later one is left, and no key tells the modern shape. -/
example :
    Grammar.ofHost (Grammar.toHost
      ⟨"words", ⟨"[a-z]+", [⟨.keyword, ["if"]⟩, ⟨.string, []⟩, ⟨.keyword, ["then"]⟩]⟩, [], .legacy⟩
      .modern) =
      .ok ⟨"words", ⟨"[a-z]+", [⟨.string, []⟩, ⟨.keyword, ["then"]⟩]⟩, [], .legacy⟩ := by
  rfl

end Grammar

/-! ## Highlighting with a grammar that was exported and imported

A host object keeps one group of words for each category and brings the groups into the order of the
categories. If the categories of a grammar are distinct, all groups come back
(`mem_lastGroups_iff`); if no word is listed in two of them, their order decides nothing
(`categoryOf?_lastGroups`). The imported grammar then highlights as the original one does
(`Grammar.ofHost_toHost_highlights_alike`). -/

/-! ### Groups in another order -/

namespace KeywordSet

variable {groups : List KeywordGroup} {group : KeywordGroup} {word : String}

theorem findRev?_category_eq_some_iff (hcategories : (groups.map (·.category)).Nodup)
    {category : Category} :
    groups.findRev? (·.category = category) = some group ↔
      group ∈ groups ∧ group.category = category := by
  rw [List.findRev?_eq_find?_reverse, find?_eq_some_iff_of_unique]
  · rw [List.mem_reverse, decide_eq_true_eq]
  · intro group hgroup other hother hcategory hcategory'
    refine List.inj_on_of_nodup_map hcategories (List.mem_reverse.mp hgroup)
      (List.mem_reverse.mp hother) ?_
    rw [of_decide_eq_true hcategory, of_decide_eq_true hcategory']

/-- If no two groups have the same category, every group is the last of its category. -/
theorem mem_lastGroups_iff (hcategories : (groups.map (·.category)).Nodup) :
    group ∈ lastGroups groups ↔ group ∈ groups := by
  rw [lastGroups, List.mem_filterMap]
  constructor
  · rintro ⟨category, -, hfind⟩
    exact ((findRev?_category_eq_some_iff hcategories).mp hfind).1
  · intro hgroup
    refine ⟨group.category, ?_, (findRev?_category_eq_some_iff hcategories).mpr ⟨hgroup, rfl⟩⟩
    cases group.category <;> decide

/-- The category of a word does not depend on the order in which the groups come back. -/
theorem categoryOf?_lastGroups {set : KeywordSet}
    (hcategories : (set.groups.map (·.category)).Nodup)
    (hwords : set.groups.Pairwise fun group other => group.words.Disjoint other.words)
    (word : String) :
    categoryOf? ⟨set.pattern, lastGroups set.groups⟩ word = set.categoryOf? word := by
  have hsymm : Std.Symm fun group other : KeywordGroup => group.words.Disjoint other.words :=
    ⟨fun _ _ h => List.Disjoint.symm h⟩
  have hunique : ∀ group ∈ set.groups, ∀ other ∈ set.groups, group.words.contains word →
      other.words.contains word → group = other := by
    intro group hgroup other hother hword hword'
    by_contra hne
    have hdisjoint := hwords.forall hgroup hother hne
    exact hdisjoint (List.contains_iff_mem.mp hword) (List.contains_iff_mem.mp hword')
  rw [categoryOf?, categoryOf?]
  refine congrArg _ (Option.ext fun group => ?_)
  rw [find?_eq_some_iff_of_unique hunique, find?_eq_some_iff_of_unique]
  · rw [mem_lastGroups_iff hcategories]
  · intro group hgroup other hother
    exact hunique group ((mem_lastGroups_iff hcategories).mp hgroup) other
      ((mem_lastGroups_iff hcategories).mp hother)

end KeywordSet

/-! ### The imported grammar -/

namespace Grammar

variable {grammar : Grammar}

/-- A grammar without void rules comes back with the same name, pattern and rules. -/
theorem exists_ofHost_toHost_eq
    (hrules : ∀ rule, .pattern rule ∈ grammar.rules → rule.variants ≠ []) (shape : HostShape) :
    ∃ imported, ofHost (grammar.toHost shape) = .ok imported ∧ imported.name = grammar.name ∧
      imported.keywords =
        ⟨grammar.keywords.pattern, KeywordSet.lastGroups grammar.keywords.groups⟩ ∧
      imported.rules = grammar.rules := by
  have hvoid : grammar.rules.findIdx? Rule.isVoid = none := by
    refine List.findIdx?_eq_none_iff.mpr fun rule hrule => ?_
    match rule with
    | .region _ => rfl
    | .pattern ⟨_, []⟩ => exact absurd rfl (hrules _ hrule)
    | .pattern ⟨_, _ :: _⟩ => rfl
  rw [ofHost_toHost, hvoid]
  exact ⟨_, rfl, rfl, rfl, rfl⟩

/-- A grammar that was exported and imported highlights as it did before, whatever texts are read as
patterns: it has the same first fault in a pattern or none, and finds the same spans in every text
and the same categories of words. -/
theorem ofHost_toHost_highlights_alike (read : String → Option Pattern) (grammar : Grammar)
    (shape : HostShape)
    (hcategories : (grammar.keywords.groups.map (·.category)).Nodup)
    (hwords : grammar.keywords.groups.Pairwise fun group other =>
      group.words.Disjoint other.words)
    (hrules : ∀ rule, .pattern rule ∈ grammar.rules → rule.variants ≠ []) :
    ∃ imported, ofHost (grammar.toHost shape) = .ok imported ∧
      (∀ invalid, Highlighter.ofGrammar read imported = .error invalid ↔
        Highlighter.ofGrammar read grammar = .error invalid) ∧
      ∀ h h', Highlighter.ofGrammar read grammar = .ok h →
        Highlighter.ofGrammar read imported = .ok h' →
        (∀ text, h'.highlight text = h.highlight text) ∧
        ∀ word, h'.classifyWord word = h.classifyWord word := by
  obtain ⟨imported, himported, hname, hkeywords, hrules'⟩ := exists_ofHost_toHost_eq hrules shape
  have hpattern : imported.keywords.pattern = grammar.keywords.pattern := by rw [hkeywords]
  have hread := Highlighter.ofGrammar_eq_map read grammar imported hname hpattern hrules'
  refine ⟨imported, himported, fun invalid => ?_, fun h h' hgrammar hgrammar' => ?_⟩
  · rw [hread]
    cases Highlighter.ofGrammar read grammar <;> simp [Except.map]
  · have hclassify : ∀ word, h'.classifyWord word = h.classifyWord word := by
      intro word
      rw [Highlighter.classifyWord_of_ofGrammar hgrammar,
        Highlighter.classifyWord_of_ofGrammar hgrammar', hkeywords,
        KeywordSet.categoryOf?_lastGroups hcategories hwords]
    rw [hread, hgrammar] at hgrammar'
    obtain rfl := Except.ok.inj hgrammar'
    have hsame : Highlighter.SameWords { h with words := wordTable imported.keywords.groups } h :=
      ⟨rfl, rfl, hclassify⟩
    exact ⟨hsame.highlight_eq, hclassify⟩

/-- Built-in words are listed before the keywords, and come back behind them. -/
def builtInsFirst : Grammar where
  name := "built-ins first"
  keywords := ⟨"[a-z]+", [⟨.builtIn, ["num"]⟩, ⟨.keyword, ["if", "else"]⟩]⟩
  rules := [.pattern ⟨.number, ["[0-9]+", "x"]⟩]
  shape := .modern

/-- The groups of the imported grammar stand in another order, and yet its words are the same. -/
theorem ofHost_toHost_highlights_alike_builtInsFirst :
    (builtInsFirst.keywords.groups.map (·.category)).Nodup ∧
      (builtInsFirst.keywords.groups.Pairwise fun group other =>
        group.words.Disjoint other.words) ∧
      (∀ rule, .pattern rule ∈ builtInsFirst.rules → rule.variants ≠ []) ∧
      ∃ imported, ofHost (builtInsFirst.toHost .legacy) = .ok imported ∧
        imported.keywords.groups = [⟨.keyword, ["if", "else"]⟩, ⟨.builtIn, ["num"]⟩] ∧
        ∀ h h', Highlighter.ofGrammar Pattern.ofString? builtInsFirst = .ok h →
          Highlighter.ofGrammar Pattern.ofString? imported = .ok h' →
            h'.highlight "num if 1" = h.highlight "num if 1" ∧
            h'.classifyWord "num" = h.classifyWord "num" := by
  have hcategories : (builtInsFirst.keywords.groups.map (·.category)).Nodup := by decide
  have hwords : builtInsFirst.keywords.groups.Pairwise fun group other =>
      group.words.Disjoint other.words := by
    simp [builtInsFirst, List.Disjoint]
  have hrules : ∀ rule, .pattern rule ∈ builtInsFirst.rules → rule.variants ≠ [] := by
    intro rule hrule
    obtain ⟨rfl⟩ := List.mem_singleton.mp hrule
    exact List.cons_ne_nil _ _
  obtain ⟨imported, himported, -, hspec⟩ :=
    ofHost_toHost_highlights_alike Pattern.ofString? builtInsFirst .legacy hcategories hwords hrules
  refine ⟨hcategories, hwords, hrules, imported, himported, ?_, fun h h' hread hread' => ?_⟩
  · obtain ⟨imported', himported', -, hkeywords, -⟩ := exists_ofHost_toHost_eq hrules .legacy
    obtain rfl := Except.ok.inj (himported.symm.trans himported')
    rw [hkeywords]
    rfl
  · obtain ⟨hhighlight, hclassify⟩ := hspec h h' hread hread'
    exact ⟨hhighlight _, hclassify _⟩

end Grammar

end CodeTint
