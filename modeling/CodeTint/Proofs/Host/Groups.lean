import CodeTint.Proofs.Host.Reading
import CodeTint.Proofs.Json.Texts

/-!
# Groups of words from labels

The keyword set of a host object is told by what stands under `keywords`, label by label
(`Grammar.keywords_of_ofHost`): by the words under the labels of each category, and not by the order
in which the labels are written. In the text of a host object all members may change their places,
and labels that mean no category may come and go (`Grammar.isReadFrom_of_ofHostText`).
-/

namespace CodeTint

/-! ## What a host object gives -/

/-- The keywords that are declared, or the pattern alone if there are none. -/
def HostGrammar.keywordSet (host : HostGrammar) : KeywordSet :=
  match host.keywords with
  | some keywords => keywords.toKeywordSet
  | none => .ofPattern defaultKeywordPattern

/-- A grammar has the keywords and the rules that its host object declares. -/
theorem Grammar.ofHost_eq_ok_iff {value : Json} {grammar : Grammar} :
    ofHost value = .ok grammar ↔
      ∃ host lists, HostGrammar.ofJson? value = some host ∧
        host.modes.mapM HostMode.rules = .ok lists ∧
          grammar = ⟨host.name, host.keywordSet, lists.flatten, .detect value⟩ := by
  constructor
  · intro h
    rw [ofHost] at h
    split at h
    · rename_i host hhost
      obtain ⟨rules, hrules, h⟩ := bind_eq_ok_iff.mp h
      obtain ⟨lists, hlists, rfl⟩ := rulesOfModes_eq_ok_iff.mp hrules
      exact ⟨host, lists, hhost, hlists, (Except.ok.inj h).symm⟩
    · cases h
  · rintro ⟨host, lists, hhost, hlists, rfl⟩
    rw [ofHost, hhost]
    exact bind_eq_ok_iff.mpr ⟨_, rulesOfModes_eq_ok_iff.mpr ⟨lists, hlists, rfl⟩, rfl⟩

theorem Grammar.shape_of_ofHost {value : Json} {grammar : Grammar}
    (h : ofHost value = .ok grammar) : grammar.shape = .detect value := by
  obtain ⟨host, lists, -, -, rfl⟩ := ofHost_eq_ok_iff.mp h
  rfl

/-! ## What stands under labels -/

namespace Json

/-- What a host object holds as its keywords, which are the second item if it is written as an
array; `null` if it holds nothing there. -/
def hostKeywords : Json → Json
  | .object members => (members.lookup "keywords").getD .null
  | .array (_ :: keywords :: _) => keywords
  | _ => .null

def words : Json → List String
  | .string text => splitOnBlanks text
  | .array items => items.filterMap text?
  | _ => []

/-- The words under the label. -/
def wordsAt (label : String) (keywords : Json) : List String :=
  ((keywords.get? label).map words).getD []

end Json

/-- A group for each category of which some label is given, with the words under all its labels. -/
def labelGroups (given : String → Bool) (words : String → List String) : List KeywordGroup :=
  groupsOf (Category.all.filter fun category => category.labels.any given)
    fun category => category.labels.flatMap words

section Congr

variable {given given' : String → Bool} {words words' : String → List String}

/-- It counts only whether a category has a label, and what stands under its labels together. -/
theorem labelGroups_eq
    (hgiven : ∀ category : Category, category.labels.any given' = category.labels.any given)
    (hwords : ∀ category : Category,
      category.labels.flatMap words' = category.labels.flatMap words) :
    labelGroups given' words' = labelGroups given words := by
  rw [labelGroups, labelGroups]
  simp only [hgiven, hwords]

theorem labelGroups_congr (h : ∀ category : Category, ∀ label ∈ category.labels,
      given' label = given label ∧ words' label = words label) :
    labelGroups given' words' = labelGroups given words := by
  refine labelGroups_eq (fun category => ?_) fun category => ?_
  · rw [Bool.eq_iff_iff, List.any_eq_true, List.any_eq_true]
    exact exists_congr fun label => and_congr_right fun hmem => by rw [(h category label hmem).1]
  · exact List.flatMap_congr fun label hmem => (h category label hmem).2

end Congr

/-- The keyword set that is declared label by label. -/
def Json.keywordSet (keywords : Json) : KeywordSet :=
  ⟨(keywords.textAt keywordPatternKey).getD defaultKeywordPattern,
    labelGroups (fun label => (keywords.get? label).isSome) fun label => keywords.wordsAt label⟩

theorem Category.mem_all (category : Category) : category ∈ all := by
  cases category <;> decide

/-! ## Reading the labels -/

theorem filterMap_eq_of_mapM {α β : Type} {read : α → Option β} {items : List α} {results : List β}
    (h : items.mapM read = some results) : items.filterMap read = results := by
  induction mapM_eq_some_iff_forall₂.mp h with
  | nil => rfl
  | cons hitem _ ih => rw [List.filterMap_cons, hitem, ih (mapM_eq_some_iff_forall₂.mpr ‹_›)]

theorem isEmpty_filterMap {α β : Type} (read : α → Option β) (items : List α) :
    (!(items.filterMap read).isEmpty) = items.any fun item => (read item).isSome := by
  induction items with
  | nil => rfl
  | cons item items ih =>
      rw [List.filterMap_cons, List.any_cons, ← ih]
      cases read item <;> rfl

section Labels

variable {keywords : HostKeywords} {label : String} {members : List (String × Json)}

theorem HostKeywords.lookup_lists_eq (h : ofMembers? members = some keywords)
    (hlabel : label ≠ keywordPatternKey) :
    (keywords.lists.lookup label).isSome = ((Json.object members).get? label).isSome ∧
      (keywords.lists.lookup label).toList.flatMap (·.words) =
        (Json.object members).wordsAt label := by
  rw [lookup_lists_of_ofMembers? h hlabel, Json.wordsAt, Json.get?]
  cases hvalue : members.lookup label with
  | none => exact ⟨rfl, rfl⟩
  | some value =>
      have hmember := ofMembers?_isSome_iff.mp (Option.isSome_iff_exists.mpr ⟨keywords, h⟩)
        (label, value) (mem_of_lookup hvalue)
      rw [IsMember, if_neg hlabel] at hmember
      obtain ⟨list, hlist⟩ := Option.isSome_iff_exists.mp hmember
      rw [Option.bind_some, hlist]
      refine ⟨rfl, ?_⟩
      rw [Option.toList_some, List.flatMap_singleton]
      cases value with
      | string text =>
          obtain rfl := Option.some.inj hlist
          rfl
      | array items =>
          obtain ⟨texts, htexts, rfl⟩ := Option.map_eq_some_iff.mp hlist
          exact (filterMap_eq_of_mapM htexts).symm
      | _ => cases hlist

theorem HostKeywords.toKeywordSet_eq_labelGroups (horder : InOrder keywords.lists) :
    keywords.toKeywordSet = ⟨keywords.pattern.getD defaultKeywordPattern,
      labelGroups (fun label => (keywords.lists.lookup label).isSome)
        fun label => (keywords.lists.lookup label).toList.flatMap (·.words)⟩ := by
  have hgiven : ∀ category : Category, (!(keywords.listsOf category).isEmpty) =
      category.labels.any fun label => (keywords.lists.lookup label).isSome := fun category => by
    rw [listsOf_eq horder, isEmpty_filterMap]
  have hwords : ∀ category : Category, (keywords.listsOf category).flatMap (·.words) =
      category.labels.flatMap fun label =>
        (keywords.lists.lookup label).toList.flatMap (·.words) := by
    intro category
    rw [listsOf_eq horder, List.filterMap_eq_flatMap_toList, List.flatMap_assoc]
  rw [toKeywordSet_eq_groupsOf, labelGroups]
  simp only [hgiven, hwords]

/-- The keywords that are read declare what stands under the labels. -/
theorem HostKeywords.toKeywordSet_eq_keywordSet (h : ofMembers? members = some keywords) :
    keywords.toKeywordSet = (Json.object members).keywordSet := by
  have hpattern : keywords.pattern = (Json.object members).textAt keywordPatternKey := by
    rw [pattern_of_ofMembers? h, Json.textAt, Json.get?]
    refine congrArg _ (funext fun value => ?_)
    cases value <;> rfl
  rw [toKeywordSet_eq_labelGroups (inOrder_lists h), Json.keywordSet, hpattern]
  refine congrArg (KeywordSet.mk _) (labelGroups_congr fun category label hlabel => ?_)
  exact lookup_lists_eq h (Category.ne_keywordPatternKey_of_mem_labels hlabel)

theorem HostGrammar.ofJson?_hostKeywords {value : Json} {host : HostGrammar}
    (h : HostGrammar.ofJson? value = some host) :
    HostKeywords.ofJson? value.hostKeywords = some host.keywords := by
  simp only [HostGrammar.ofJson?, Option.bind_eq_bind] at h
  split at h
  case h_5 => cases h
  all_goals
    obtain ⟨_, hparts, h⟩ := Option.bind_eq_some_iff.mp h
    obtain ⟨_, -, h⟩ := Option.bind_eq_some_iff.mp h
    obtain ⟨keywords, hkeywords, h⟩ := Option.bind_eq_some_iff.mp h
    split at h
    · obtain ⟨modes, -, h⟩ := Option.bind_eq_some_iff.mp h
      obtain rfl := Option.some.inj h
      obtain rfl := Option.some.inj hparts
      exact hkeywords
    · cases h

theorem HostGrammar.keywordSet_of_ofJson? {value : Json} {host : HostGrammar}
    (h : HostGrammar.ofJson? value = some host) :
    host.keywordSet = value.hostKeywords.keywordSet := by
  have hkeywords := ofJson?_hostKeywords h
  rw [HostGrammar.keywordSet]
  cases hvalue : value.hostKeywords with
  | null =>
      rw [hvalue] at hkeywords
      rw [← Option.some.inj hkeywords]
      rfl
  | object members =>
      rw [hvalue] at hkeywords
      obtain ⟨keywords, hread, hsome⟩ := Option.map_eq_some_iff.mp hkeywords
      rw [← hsome]
      exact HostKeywords.toKeywordSet_eq_keywordSet hread
  | _ => rw [hvalue] at hkeywords; cases hkeywords

/-- The keywords of a grammar are those that the labels of its host object declare. -/
theorem Grammar.keywords_of_ofHost {value : Json} {grammar : Grammar}
    (h : ofHost value = .ok grammar) : grammar.keywords = value.hostKeywords.keywordSet := by
  obtain ⟨host, lists, hhost, -, rfl⟩ := ofHost_eq_ok_iff.mp h
  exact HostGrammar.keywordSet_of_ofJson? hhost

end Labels

/-! ## What the labels tell -/

namespace Json

variable {keywords other : Json} {category : Category} {label word : String}

theorem wordsAt_eq_nil (h : keywords.get? label = none) : keywords.wordsAt label = [] := by
  rw [wordsAt, h, Option.map_none, Option.getD_none]

theorem any_isSome_get?_of_mem (h : word ∈ category.labels.flatMap (keywords.wordsAt ·)) :
    category.labels.any (fun label => (keywords.get? label).isSome) = true := by
  obtain ⟨label, hlabel, hword⟩ := List.mem_flatMap.mp h
  refine List.any_eq_true.mpr ⟨label, hlabel, Option.isSome_iff_ne_none.mpr fun hnone => ?_⟩
  rw [wordsAt_eq_nil hnone] at hword
  exact List.not_mem_nil hword

theorem wordsOf_keywordSet (keywords : Json) (category : Category) :
    keywords.keywordSet.wordsOf category = category.labels.flatMap (keywords.wordsAt ·) := by
  rw [keywordSet, labelGroups, KeywordSet.wordsOf_groupsOf _ (List.Nodup.filter _ (by decide))]
  refine ite_eq_left_iff.mpr fun hnot => Eq.symm ?_
  refine List.eq_nil_iff_forall_not_mem.mpr fun word hword => hnot ?_
  exact List.mem_filter.mpr ⟨category.mem_all, any_isSome_get?_of_mem hword⟩

theorem categoryOf?_keywordSet (keywords : Json) (word : String) :
    keywords.keywordSet.categoryOf? word = Category.all.find? fun category =>
      (keywords.keywordSet.wordsOf category).contains word := by
  simp only [wordsOf_keywordSet]
  rw [keywordSet, labelGroups, KeywordSet.categoryOf?_groupsOf, List.find?_filter]
  congr 1
  funext category
  rw [Bool.eq_iff_iff, decide_eq_true_iff, List.contains_iff_mem]
  exact ⟨And.right, fun hword => ⟨any_isSome_get?_of_mem hword, hword⟩⟩

/-- Two objects that show the same under all labels declare the same keyword set. -/
theorem keywordSet_congr (hpattern : other.textAt keywordPatternKey =
      keywords.textAt keywordPatternKey)
    (hlabels : ∀ label, (Category.ofLabel? label).isSome →
      (other.get? label).isSome = (keywords.get? label).isSome ∧
        other.wordsAt label = keywords.wordsAt label) :
    other.keywordSet = keywords.keywordSet := by
  rw [keywordSet, keywordSet, hpattern]
  refine congrArg (KeywordSet.mk _) (labelGroups_congr fun category label hlabel => ?_)
  exact hlabels label (Category.mem_labels_iff.mp hlabel ▸ rfl)

end Json

/-- The pattern and the groups of the set are told by what stands under the labels: there is a group
for each category of which some label is given, in the order in which words of several categories
are decided. -/
structure KeywordSet.IsReadFrom (set : KeywordSet) (keywords : Json) : Prop where
  pattern : set.pattern = (keywords.textAt "$pattern").getD "\\w+"
  order : (set.groups.map (·.category)).Sublist [.string, .number, .keyword, .builtIn]
  mem_categories_iff : ∀ category, category ∈ set.groups.map (·.category) ↔
    ∃ label, Category.ofLabel? label = some category ∧ (keywords.get? label).isSome
  words : ∀ category, set.wordsOf category =
    match category with
    | .builtIn => keywords.wordsAt "built_in" ++ keywords.wordsAt "type"
    | category => keywords.wordsAt category.name
  categoryOf : ∀ word, set.categoryOf? word =
    [.string, .number, .keyword, .builtIn].find? fun category =>
      (set.wordsOf category).contains word

theorem Json.isReadFrom_keywordSet (keywords : Json) :
    keywords.keywordSet.IsReadFrom keywords where
  pattern := rfl
  order := by
    rw [keywordSet, labelGroups, map_category_groupsOf]
    exact List.filter_sublist
  mem_categories_iff category := by
    rw [keywordSet, labelGroups, map_category_groupsOf, List.mem_filter, List.any_eq_true]
    simp only [Category.mem_labels_iff]
    exact and_iff_right category.mem_all
  words category := by
    rw [wordsOf_keywordSet]
    cases category <;> simp [Category.labels]
  categoryOf word := categoryOf?_keywordSet keywords word

/-! ## The order in which members are written -/

section Reorders

variable {value written other : Json}

theorem text?_eq_of_reorders (h : value.Reorders other) : text? other = text? value := by
  cases h <;> rfl

theorem words_eq_of_reorders (h : value.Reorders other) : other.words = value.words := by
  cases h with
  | same => rfl
  | array hitems =>
      rw [Json.words, Json.words]
      induction hitems with
      | nil => rfl
      | cons hitem _ ih =>
          rw [List.filterMap_cons, List.filterMap_cons, text?_eq_of_reorders hitem, ih]
  | object => rfl

/-- What is told by related values alike does not tell one from the other. -/
theorem eq_of_rel {α β : Type} {R : α → α → Prop} {found found' : Option α} (tell : Option α → β)
    (h : Option.Rel R found found') (htell : ∀ a a', R a a' → tell (some a') = tell (some a)) :
    tell found' = tell found := by
  cases h with
  | none => rfl
  | some h => exact htell _ _ h

theorem getD_reorders {found found' : Option Json} (h : Option.Rel Json.Reorders found found') :
    (found.getD .null).Reorders (found'.getD .null) := by
  cases h with
  | none => exact .same _
  | some h => exact h

namespace Json.HasDistinctNames

theorem keywordSet_eq_of_reorders (h : written.HasDistinctNames)
    (hreorders : written.Reorders other) : other.keywordSet = written.keywordSet := by
  have hkeys := h.rel_get?_of_reorders hreorders
  refine keywordSet_congr ?_ fun label _ => ⟨?_, ?_⟩
  · exact eq_of_rel (·.bind text?) (hkeys _) fun _ _ => text?_eq_of_reorders
  · exact eq_of_rel Option.isSome (hkeys label) fun _ _ _ => rfl
  · exact eq_of_rel (fun found => (found.map words).getD []) (hkeys label)
      fun _ _ => words_eq_of_reorders

theorem hostKeywords (h : written.HasDistinctNames) : written.hostKeywords.HasDistinctNames := by
  cases h with
  | @object members _ hmembers =>
      rw [Json.hostKeywords]
      cases hkeywords : members.lookup "keywords" with
      | none => exact .null
      | some keywords => exact hmembers _ (mem_of_lookup hkeywords)
  | @array items hitems =>
      cases items with
      | nil => exact .null
      | cons name items =>
          cases items with
          | nil => exact .null
          | cons keywords items =>
              exact hitems keywords (List.mem_cons_of_mem _ List.mem_cons_self)
  | _ => exact .null

theorem hostKeywords_reorders (h : written.HasDistinctNames) (hreorders : written.Reorders other) :
    written.hostKeywords.Reorders other.hostKeywords := by
  have hkeys := h.rel_get?_of_reorders hreorders
  cases h with
  | object =>
      obtain ⟨others, rfl, -⟩ := hreorders.exists_object
      exact getD_reorders (hkeys "keywords")
  | array =>
      obtain ⟨others, rfl, hitems⟩ := hreorders.exists_array
      cases hitems with
      | nil => exact .same _
      | cons _ hitems =>
          cases hitems with
          | nil => exact .same _
          | cons hkeywords _ => exact hkeywords
  | _ =>
      cases hreorders
      exact .same _

end Json.HasDistinctNames

end Reorders

namespace Grammar

theorem ofHostText_eq_ok_iff {text : String} {grammar : Grammar} :
    ofHostText text = .ok grammar ↔
      ∃ value, Decoder.json.ofText text = .ok value ∧ ofHost value = .ok grammar := by
  rw [ofHostText]
  cases Decoder.json.ofText text <;> simp

theorem keywords_of_ofHostText {text : String} {grammar : Grammar} {written : Json}
    (h : ofHostText text = .ok grammar) (hsaid : written.SaidBy text)
    (hdistinct : written.HasDistinctNames) :
    grammar.keywords = written.hostKeywords.keywordSet := by
  obtain ⟨value, hvalue, hgrammar⟩ := ofHostText_eq_ok_iff.mp h
  have hreorders := hdistinct.reorders (hsaid.ofText_eq_ok_iff.mp hvalue)
  rw [keywords_of_ofHost hgrammar]
  exact hdistinct.hostKeywords.keywordSet_eq_of_reorders (hdistinct.hostKeywords_reorders hreorders)

/-- A text that is read as a host object says a value. If no object in it has two members of one
name, the labels under `keywords` tell the pattern, the groups and their words, labels that mean no
category tell nothing, and the order in which members are written does not count. -/
theorem isReadFrom_of_ofHostText {text : String} {grammar : Grammar}
    (h : ofHostText text = .ok grammar) :
    (∃ written : Json, written.SaidBy text) ∧
      ∀ written : Json, written.SaidBy text → written.HasDistinctNames →
        grammar.keywords.IsReadFrom written.hostKeywords ∧
          (∀ (other : Json) (text' : String) (grammar' : Grammar),
            other.SaidBy text' → other.HasDistinctNames → ofHostText text' = .ok grammar' →
            (∀ label, label = "$pattern" ∨ (Category.ofLabel? label).isSome →
              other.hostKeywords.get? label = written.hostKeywords.get? label) →
            grammar'.keywords = grammar.keywords) ∧
          ∀ (other : Json) (text' : String), other.SaidBy text' → written.Reorders other →
            ofHostText text' = .ok grammar := by
  obtain ⟨value, hvalue, hgrammar⟩ := ofHostText_eq_ok_iff.mp h
  refine ⟨Json.exists_saidBy hvalue, fun written hsaid hdistinct => ⟨?_, ?_, ?_⟩⟩
  · rw [keywords_of_ofHostText h hsaid hdistinct]
    exact written.hostKeywords.isReadFrom_keywordSet
  · intro other text' grammar' hsaid' hdistinct' h' hlabels
    rw [keywords_of_ofHostText h hsaid hdistinct, keywords_of_ofHostText h' hsaid' hdistinct']
    refine Json.keywordSet_congr ?_ fun label hlabel => ?_
    · rw [Json.textAt, hlabels keywordPatternKey (.inl rfl), Json.textAt]
    · rw [Json.wordsAt, hlabels label (.inr hlabel), Json.wordsAt]
      exact ⟨rfl, rfl⟩
  · intro other text' hsaid' hreorders
    exact ofHostText_eq_ok_iff.mpr
      ⟨value, hdistinct.ofText_eq_of_reorders hreorders hsaid hsaid' hvalue, hgrammar⟩

/-- Labels in no order: two of them mean the same category, one means none, and one has no words. -/
def jumbled : Json :=
  .object [
    ("keywords", .object [("type", .string "int bool"), ("literal", .string "true"),
      ("keyword", .ofStrings ["if", "int"]), ("built_in", .string "print"),
      ("number", .array [])]),
    ("name", .string "jumbled")]

theorem hasDistinctNames_jumbled : jumbled.HasDistinctNames := by
  have hwords : (Json.ofStrings ["if", "int"]).HasDistinctNames :=
    .array (by simp [Json.HasDistinctNames.string])
  refine .object (by decide) (List.forall_mem_cons.mpr ⟨.object (by decide) ?_, ?_⟩)
  · simp [Json.HasDistinctNames.string, hwords, Json.HasDistinctNames.array]
  · exact List.forall_mem_singleton.mpr (.string _)

theorem isTextual_jumbled : jumbled.IsTextual 3 := by
  have hwords : (Json.ofStrings ["if", "int"]).IsTextual 1 :=
    .array (by simp [Json.IsTextual.string])
  refine .object (List.forall_mem_cons.mpr ⟨.object ?_, ?_⟩)
  · simp [Json.IsTextual.string, hwords, Json.IsTextual.array]
  · exact List.forall_mem_singleton.mpr (.string _ _)

/-- Read from its text, the jumbled object gives its groups in order, and it does so from every text
that says the members in another order. -/
theorem isReadFrom_of_ofHostText_jumbled :
    let grammar : Grammar := ⟨"jumbled", ⟨"\\w+", [⟨.number, []⟩, ⟨.keyword, ["if", "int"]⟩,
      ⟨.builtIn, ["print", "int", "bool"]⟩]⟩, [], .modern⟩
    jumbled.SaidBy jumbled.compact ∧ jumbled.HasDistinctNames ∧
      ofHostText jumbled.compact = .ok grammar ∧ grammar.keywords.IsReadFrom jumbled.hostKeywords ∧
      ∀ (other : Json) (text : String), other.SaidBy text → jumbled.Reorders other →
        ofHostText text = .ok grammar := by
  intro grammar
  have hsaid : jumbled.SaidBy jumbled.compact := (Json.spelledBy_compact isTextual_jumbled).saidBy
  have hread : ofHostText jumbled.compact = .ok grammar :=
    ofHostText_eq_ok_iff.mpr ⟨_, hsaid.ofText_eq_ok_iff.mpr rfl, rfl⟩
  obtain ⟨-, htold⟩ := isReadFrom_of_ofHostText hread
  obtain ⟨hkeywords, -, hreorders⟩ := htold jumbled hsaid hasDistinctNames_jumbled
  exact ⟨hsaid, hasDistinctNames_jumbled, hread, hkeywords, hreorders⟩

end Grammar

end CodeTint
