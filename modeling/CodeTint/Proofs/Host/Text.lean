import CodeTint.Proofs.Host.NormalForm
import CodeTint.Proofs.Json.Texts

/-!
# Grammars through the texts of host objects

A host object holds no numbers and does not nest deep (`Grammar.isPlain_toHost`), so that its text
is read as the object itself is. The object does not tell how often and in which order the groups of
keywords were declared (`KeywordSet.toHost_lastGroups`), so that what was read is written as the
same text again (`Grammar.ofHostText_toHostText`).
-/

namespace CodeTint

/-! ## Host objects are plain -/

section IsPlain

variable {depth : Nat}

theorem KeywordSet.isPlain_toHost (set : KeywordSet) (shape : HostShape) :
    (set.toHost shape).IsPlain (depth + 2) := by
  refine Json.isPlain_ofMembers fun member hmember => ?_
  rcases List.mem_append.mp hmember with hmember | hmember
  · obtain ⟨group, -, rfl⟩ := List.mem_map.mp hmember
    exact Json.isPlain_ofStrings group.words
  · obtain rfl := List.mem_singleton.mp hmember
    exact .string _ set.pattern

theorem isPlain_patternMember (shape : HostShape) (pattern : String) :
    (patternMember shape pattern).2.IsPlain depth :=
  .string depth pattern

theorem Rule.isPlain_hostMembers (rule : Rule) (shape : HostShape) :
    ∀ member ∈ rule.hostMembers shape, member.2.IsPlain (depth + 2) := by
  have hvariants : ∀ variants : List String, (Json.array (variants.map fun variant =>
      .ofMembers [patternMember shape variant])).IsPlain (depth + 2) := by
    refine fun variants => .array fun item hitem => ?_
    obtain ⟨variant, -, rfl⟩ := List.mem_map.mp hitem
    exact Json.isPlain_ofMembers
      (List.forall_mem_singleton.mpr (isPlain_patternMember shape variant))
  match rule with
  | .region rule =>
      refine List.forall_mem_singleton.mpr (.array (List.forall_mem_singleton.mpr ?_))
      refine Json.isPlain_ofMembers fun member hmember => ?_
      rcases List.mem_append.mp hmember with hmember | hmember
      · rcases List.mem_pair.mp hmember with rfl | rfl
        · exact .string depth rule.opening
        · exact .string depth rule.closing
      · exact Json.isPlain_optionalMember member hmember
  | .pattern ⟨_, []⟩ => exact List.forall_mem_singleton.mpr (hvariants [])
  | .pattern ⟨_, [variant]⟩ =>
      exact List.forall_mem_singleton.mpr (isPlain_patternMember shape variant)
  | .pattern ⟨_, first :: second :: variants⟩ =>
      exact List.forall_mem_singleton.mpr (hvariants (first :: second :: variants))

theorem Rule.isPlain_toHost (rule : Rule) (shape : HostShape) :
    (rule.toHost shape).IsPlain (depth + 3) :=
  Json.isPlain_ofMembers (List.forall_mem_cons.mpr
    ⟨.string _ (shape.label rule.category), rule.isPlain_hostMembers shape⟩)

theorem Grammar.isPlain_toHost (grammar : Grammar) (shape : HostShape) :
    (grammar.toHost shape).IsPlain (depth + 5) := by
  refine Json.isPlain_ofMembers (List.forall_mem_cons.mpr ⟨.string _ grammar.name,
    List.forall_mem_cons.mpr ⟨grammar.keywords.isPlain_toHost shape, List.forall_mem_singleton.mpr
      (.array fun item hitem => ?_)⟩⟩)
  obtain ⟨rule, -, rfl⟩ := List.mem_map.mp hitem
  exact rule.isPlain_toHost shape

end IsPlain

/-! ## Groups that the host object does not show -/

namespace KeywordSet

theorem findRev?_filterMap {find : Category → Option KeywordGroup}
    (hfind : ∀ category group, find category = some group → group.category = category)
    (order : List Category) (category : Category) :
    (order.filterMap find).findRev? (·.category = category) =
      if category ∈ order then find category else none := by
  induction order with
  | nil => rfl
  | cons other order ih =>
      by_cases hother : category = other
      · subst hother
        rw [if_pos List.mem_cons_self, List.filterMap_cons]
        cases hgroup : find category with
        | none => simp only [ih, hgroup, ite_self]
        | some group =>
            simp only [List.findRev?, ih, hgroup, hfind category group hgroup, decide_true]
            by_cases hmem : category ∈ order
            · rw [if_pos hmem]
            · simp only [if_neg hmem, if_true]
      · have hmem : category ∈ other :: order ↔ category ∈ order :=
          ⟨fun h => (List.mem_cons.mp h).resolve_left hother, List.mem_cons_of_mem _⟩
        rw [List.filterMap_cons, if_congr hmem rfl rfl, ← ih]
        cases hgroup : find other with
        | none => rfl
        | some group =>
            refine findRev?_cons_of_ne _ fun hcategory => hother ?_
            exact hcategory.symm.trans (hfind other group hgroup)

/-- A category has the same last group before and after groups were left out and reordered. -/
theorem findRev?_lastGroups (groups : List KeywordGroup) (category : Category) :
    (lastGroups groups).findRev? (·.category = category) =
      groups.findRev? (·.category = category) := by
  rw [lastGroups, findRev?_filterMap, if_pos category.mem_all]
  intro category group hgroup
  rw [List.findRev?_eq_find?_reverse] at hgroup
  have hcategory := List.find?_some hgroup
  exact of_decide_eq_true hcategory

theorem findRev?_label_lastGroups (groups : List KeywordGroup) (shape : HostShape)
    (label : String) :
    (lastGroups groups).findRev? (shape.label ·.category = label) =
      groups.findRev? (shape.label ·.category = label) := by
  by_cases hlabel : ∃ category, label = shape.label category
  · obtain ⟨category, rfl⟩ := hlabel
    have hcategory : (fun group : KeywordGroup =>
        decide (shape.label group.category = shape.label category)) =
        fun group => decide (group.category = category) := by
      funext group
      exact decide_eq_decide.mpr ⟨shape.label_injective, congrArg shape.label⟩
    rw [hcategory, findRev?_lastGroups]
  · have hnone : ∀ groups : List KeywordGroup,
        groups.findRev? (shape.label ·.category = label) = none := by
      intro groups
      rw [List.findRev?_eq_find?_reverse, List.find?_eq_none]
      exact fun group _ hgroup => hlabel ⟨group.category, (of_decide_eq_true hgroup).symm⟩
    rw [hnone, hnone]

/-- The host object of a keyword set shows of every category its last group only. -/
theorem toHost_lastGroups (set : KeywordSet) (shape : HostShape) :
    toHost ⟨set.pattern, lastGroups set.groups⟩ shape = set.toHost shape := by
  refine congrArg Json.object (putMembers_eq_of_lookup fun key => ?_)
  show (toHost ⟨set.pattern, lastGroups set.groups⟩ shape).get? key = (set.toHost shape).get? key
  by_cases hkey : key = keywordPatternKey
  · rw [hkey, get?_pattern_toHost, get?_pattern_toHost]
  · rw [get?_toHost hkey, get?_toHost hkey, findRev?_label_lastGroups]

end KeywordSet

/-! ## Grammars -/

namespace Grammar

/-- What is read from a host object that a grammar was written to is written to the same object. -/
theorem toHost_of_ofHost_toHost {grammar read : Grammar} {shape : HostShape}
    (h : ofHost (grammar.toHost shape) = .ok read) : read.toHost shape = grammar.toHost shape := by
  obtain ⟨keywords, hhost, hset⟩ := ofJson?_toHost grammar shape
  rw [ofHost, hhost] at h
  simp only [HostGrammar.toGrammar, rulesOfModes_map_hostMode, hset] at h
  cases hvoid : grammar.rules.findIdx? Rule.isVoid with
  | some index => rw [hvoid] at h; cases h
  | none =>
      rw [hvoid] at h
      obtain rfl := Except.ok.inj h
      rw [toHost_eq, toHost_eq, KeywordSet.toHost_lastGroups grammar.keywords shape]

/-- The text of a host object is read as the object is, with the same grammar or the same fault. A
grammar that was read is written as the same text again, although its groups of keywords may have
been joined and reordered. -/
theorem ofHostText_toHostText (grammar : Grammar) (shape : HostShape) :
    ofHostText (grammar.toHostText shape) = ofHost (grammar.toHost shape) ∧
      ∀ read, ofHostText (grammar.toHostText shape) = .ok read →
        read.toHostText shape = grammar.toHostText shape := by
  have htext : ofHostText (grammar.toHostText shape) = ofHost (grammar.toHost shape) := by
    rw [ofHostText, toHostText, ofText_pretty (grammar.isPlain_toHost shape)]
  refine ⟨htext, fun read hread => ?_⟩
  rw [htext] at hread
  exact congrArg Json.pretty (toHost_of_ofHost_toHost hread)

/-- Two groups of keywords with one of strings between them, and texts that cannot be written as
they are. -/
def tangled : Grammar :=
  ⟨"\"tangled\"\t\\ \x01 é", ⟨"[^\\s\"]+", [⟨.keyword, ["if"]⟩, ⟨.string, ["\\n", "\n"]⟩,
    ⟨.keyword, ["then", "\x7f"]⟩]⟩, [.region ⟨.string, "\"", "\"", some "\n"⟩], .legacy⟩

/-- The later group of keywords comes back behind that of strings, and gives the same text. -/
theorem ofHostText_toHostText_tangled :
    let read : Grammar := { tangled with
      keywords := ⟨"[^\\s\"]+", [⟨.string, ["\\n", "\n"]⟩, ⟨.keyword, ["then", "\x7f"]⟩]⟩
      shape := .modern }
    ofHostText (tangled.toHostText .modern) = .ok read ∧
      read.toHostText .modern = tangled.toHostText .modern := by
  intro read
  obtain ⟨htext, hstable⟩ := ofHostText_toHostText tangled .modern
  have hread : ofHostText (tangled.toHostText .modern) = .ok read := htext.trans (by rfl)
  exact ⟨hread, hstable read hread⟩

end Grammar

end CodeTint
