import Mathlib.Data.List.Basic
import CodeTint.Host.Object
import CodeTint.Proofs.Grammar.KeywordSet
import CodeTint.Proofs.Json.Members

/-!
# Keywords of host objects

The object under `keywords` is read member by member. What it declares under a label does not
depend on the order of the members (`lookup_lists_of_ofMembers?`), and the lists under the labels of
a category become one group (`HostKeywords.toKeywordSet_eq_groupsOf`). The words of a keyword set
come back from the object that it is written to: for each category those of the last group that has
it, in the order of the categories (`KeywordSet.exists_toKeywordSet_eq`).
-/

namespace CodeTint

/-! ## Reading the members -/

theorem mapM_text?_map_string (texts : List String) :
    (texts.map Json.string).mapM text? = some texts := by
  induction texts with
  | nil => rfl
  | cons text texts ih => simp [text?, ih]

theorem WordList.ofJson?_ofStrings (words : List String) :
    WordList.ofJson? (.ofStrings words) = some (.list words) := by
  rw [Json.ofStrings, WordList.ofJson?, mapM_text?_map_string, Option.map_some]

namespace HostKeywords

variable {name label : String} {value : Json} {members : List (String × Json)}
  {keywords : HostKeywords}

/-- The member can stand in the object under `keywords`. -/
def IsMember (name : String) (value : Json) : Prop :=
  if name = keywordPatternKey then (optionalText? value).isSome
  else (WordList.ofJson? value).isSome

theorem ofMembers?_cons_eq_some_iff :
    ofMembers? ((name, value) :: members) = some keywords ↔
      ∃ rest, ofMembers? members = some rest ∧
        if name = keywordPatternKey then
          ∃ pattern, optionalText? value = some pattern ∧ keywords = { rest with pattern }
        else
          ∃ list, WordList.ofJson? value = some list ∧
            keywords = { rest with lists := putMember name list rest.lists } := by
  rw [ofMembers?]
  by_cases hname : name = keywordPatternKey
  · simp only [if_pos hname, Option.bind_eq_bind, Option.bind_eq_some_iff, Option.pure_def,
      Option.some.injEq, eq_comm (b := keywords)]
  · simp only [if_neg hname, Option.bind_eq_bind, Option.bind_eq_some_iff, Option.pure_def,
      Option.some.injEq, eq_comm (b := keywords)]

theorem ofMembers?_isSome_iff :
    (ofMembers? members).isSome ↔ ∀ member ∈ members, IsMember member.1 member.2 := by
  induction members with
  | nil => simp [ofMembers?]
  | cons member members ih =>
      obtain ⟨name, value⟩ := member
      rw [List.forall_mem_cons, ← ih, ofMembers?, IsMember]
      split
      · cases ofMembers? members <;> cases optionalText? value <;> simp
      · cases ofMembers? members <;> cases WordList.ofJson? value <;> simp

theorem pattern_of_ofMembers? (h : ofMembers? members = some keywords) :
    keywords.pattern =
      (members.lookup keywordPatternKey).bind fun value => (optionalText? value).join := by
  induction members generalizing keywords with
  | nil => cases h; rfl
  | cons member members ih =>
      obtain ⟨name, value⟩ := member
      obtain ⟨rest, hrest, hmember⟩ := ofMembers?_cons_eq_some_iff.mp h
      rw [lookup_cons_eq_ite]
      by_cases hname : name = keywordPatternKey
      · rw [if_pos hname] at hmember
        obtain ⟨pattern, hpattern, rfl⟩ := hmember
        simp [hname, hpattern]
      · rw [if_neg hname] at hmember
        obtain ⟨list, -, rfl⟩ := hmember
        rw [if_neg (Ne.symm hname)]
        exact (ih hrest :)

theorem lookup_lists_of_ofMembers? (h : ofMembers? members = some keywords)
    (hlabel : label ≠ keywordPatternKey) :
    keywords.lists.lookup label = (members.lookup label).bind WordList.ofJson? := by
  induction members generalizing keywords with
  | nil => cases h; rfl
  | cons member members ih =>
      obtain ⟨name, value⟩ := member
      obtain ⟨rest, hrest, hmember⟩ := ofMembers?_cons_eq_some_iff.mp h
      rw [lookup_cons_eq_ite]
      by_cases hname : name = keywordPatternKey
      · rw [if_pos hname] at hmember
        obtain ⟨pattern, -, rfl⟩ := hmember
        rw [if_neg fun heq => hlabel (heq.trans hname)]
        exact (ih hrest :)
      · rw [if_neg hname] at hmember
        obtain ⟨list, hlist, rfl⟩ := hmember
        refine (lookup_putMember name label list rest.lists).trans ?_
        rw [ih hrest]
        split
        · exact hlist.symm
        · rfl

theorem inOrder_lists (h : ofMembers? members = some keywords) : InOrder keywords.lists := by
  induction members generalizing keywords with
  | nil => cases h; exact List.Pairwise.nil
  | cons member members ih =>
      obtain ⟨rest, hrest, hmember⟩ := ofMembers?_cons_eq_some_iff.mp h
      split at hmember
      · obtain ⟨pattern, -, rfl⟩ := hmember
        exact (ih hrest :)
      · obtain ⟨list, -, rfl⟩ := hmember
        exact (ih hrest).putMember

end HostKeywords

/-! ## Labels -/

namespace Category

/-- The labels that mean the category, in order. -/
def labels : Category → List String
  | builtIn => ["built_in", "type"]
  | category => [category.name]

theorem mem_labels_iff {category : Category} {label : String} :
    label ∈ category.labels ↔ ofLabel? label = some category := by
  constructor
  · revert label
    cases category <;> decide
  · unfold ofLabel?
    split <;> rintro ⟨⟩ <;> decide

theorem pairwise_labels (category : Category) : category.labels.Pairwise (· < ·) := by
  cases category <;> decide

end Category

/-! ## Keyword sets as host objects -/

namespace HostShape

theorem label_ne_keywordPatternKey (shape : HostShape) (category : Category) :
    shape.label category ≠ keywordPatternKey := by
  cases shape <;> cases category <;> decide

theorem label_injective (shape : HostShape) {category other : Category}
    (h : shape.label category = shape.label other) : category = other := by
  revert h
  cases shape <;> cases category <;> cases other <;> decide

/-- A label that the shape has for one category is no label of another. -/
theorem eq_of_label_mem_labels {shape : HostShape} {category other : Category}
    (h : shape.label other ∈ category.labels) : other = category := by
  revert h
  cases shape <;> cases category <;> cases other <;> decide

end HostShape

theorem Category.ne_keywordPatternKey_of_mem_labels {category : Category} {label : String}
    (h : label ∈ category.labels) : label ≠ keywordPatternKey := by
  rintro rfl
  revert h
  cases category <;> decide

namespace KeywordSet

variable {set : KeywordSet} {shape : HostShape} {category : Category} {label : String}

theorem get?_pattern_toHost :
    (set.toHost shape).get? keywordPatternKey = some (.string set.pattern) := by
  rw [toHost, Json.get?_ofMembers, List.reverse_append, List.reverse_singleton,
    List.singleton_append, List.lookup_cons_self]

theorem get?_toHost (hlabel : label ≠ keywordPatternKey) :
    (set.toHost shape).get? label =
      (set.groups.findRev? (shape.label ·.category = label)).map fun group =>
        .ofStrings group.words := by
  rw [toHost, Json.get?_ofMembers, List.reverse_append, List.reverse_singleton,
    List.singleton_append, lookup_cons_eq_ite, if_neg hlabel, ← List.map_reverse,
    lookup_map_eq_find?, List.findRev?_eq_find?_reverse]

/-- The words of a category are those of the last group that has it, and they stand under the one
label that the shape has for it. -/
theorem findRev?_of_mem_labels (groups : List KeywordGroup) (hlabel : label ∈ category.labels) :
    groups.findRev? (shape.label ·.category = label) =
      if label = shape.label category then groups.findRev? (·.category = category) else none := by
  split
  next heq =>
    subst heq
    congr 1
    funext group
    exact decide_eq_decide.mpr ⟨shape.label_injective, congrArg shape.label⟩
  next hne =>
    rw [List.findRev?_eq_find?_reverse, List.find?_eq_none]
    intro group _ hgroup
    have heq : shape.label group.category = label := of_decide_eq_true hgroup
    subst heq
    exact hne (congrArg shape.label (HostShape.eq_of_label_mem_labels hlabel))

theorem isMember_of_mem_toHost {member : String × Json}
    (h : member ∈ putMembers
      (set.groups.map (fun group => (shape.label group.category, Json.ofStrings group.words))
        ++ [(keywordPatternKey, .string set.pattern)])) :
    HostKeywords.IsMember member.1 member.2 := by
  rcases List.mem_append.mp (mem_putMembers h) with h | h
  · obtain ⟨group, -, rfl⟩ := List.mem_map.mp h
    rw [HostKeywords.IsMember, if_neg (shape.label_ne_keywordPatternKey group.category),
      WordList.ofJson?_ofStrings, Option.isSome_some]
  · obtain rfl := List.mem_singleton.mp h
    rfl

/-- The object that a keyword set is written to can be read, and holds what was written. -/
theorem exists_ofJson?_toHost (set : KeywordSet) (shape : HostShape) :
    ∃ keywords, HostKeywords.ofJson? (set.toHost shape) = some (some keywords) ∧
      keywords.pattern = some set.pattern ∧ InOrder keywords.lists ∧
      ∀ label, label ≠ keywordPatternKey → keywords.lists.lookup label =
        (set.groups.findRev? (shape.label ·.category = label)).map (.list ·.words) := by
  obtain ⟨keywords, hkeywords⟩ := Option.isSome_iff_exists.mp
    (HostKeywords.ofMembers?_isSome_iff.mpr fun _ => isMember_of_mem_toHost)
  refine ⟨keywords, ?_, ?_, HostKeywords.inOrder_lists hkeywords, fun label hlabel => ?_⟩
  · rw [toHost, Json.ofMembers, HostKeywords.ofJson?, hkeywords, Option.map_some]
  · have hpattern : (set.toHost shape).get? keywordPatternKey = some (.string set.pattern) :=
      get?_pattern_toHost
    rw [toHost, Json.ofMembers, Json.get?] at hpattern
    rw [HostKeywords.pattern_of_ofMembers? hkeywords, hpattern]
    rfl
  · have hlists : (set.toHost shape).get? label = _ := get?_toHost hlabel
    rw [toHost, Json.ofMembers, Json.get?] at hlists
    rw [HostKeywords.lookup_lists_of_ofMembers? hkeywords hlabel, hlists, Option.bind_map,
      Option.map_eq_bind]
    exact congrArg _ (funext fun group => WordList.ofJson?_ofStrings group.words)

end KeywordSet

/-! ## Keyword sets from host objects -/

theorem filterMap_labels {α : Type} (shape : HostShape) (category : Category) (found : Option α) :
    category.labels.filterMap (fun label => if label = shape.label category then found else none) =
      found.toList := by
  cases shape <;> cases category <;> cases found <;> rfl

namespace HostKeywords

/-- The lists under the labels that mean the category. -/
def listsOf (keywords : HostKeywords) (category : Category) : List WordList :=
  (keywords.lists.filter fun (label, _) => Category.ofLabel? label = some category).map (·.2)

theorem listsOf_eq {keywords : HostKeywords} (h : InOrder keywords.lists) (category : Category) :
    keywords.listsOf category = category.labels.filterMap fun label =>
      keywords.lists.lookup label := by
  have hfilter := h.filter_mem_eq category.pairwise_labels
  simp only [Category.mem_labels_iff] at hfilter
  rw [listsOf, hfilter, List.map_filterMap]
  simp only [Option.map_map, Function.comp_def, Option.map_id_fun']
  rfl

/-- A category has a group if there is a list under one of its labels, and the group has the words
of all these lists. -/
theorem toKeywordSet_eq_groupsOf (keywords : HostKeywords) :
    keywords.toKeywordSet = ⟨keywords.pattern.getD defaultKeywordPattern,
      groupsOf (Category.all.filter fun category => !(keywords.listsOf category).isEmpty)
        fun category => (keywords.listsOf category).flatMap (·.words)⟩ := by
  have hloop : keywords.toKeywordSet =
      (KeywordSet.ofPattern (keywords.pattern.getD defaultKeywordPattern)).addAll
        (Category.all.flatMap fun category =>
          ((keywords.listsOf category).map (·.words)).map (category, ·)) := by
    rw [KeywordSet.addAll, List.foldl_flatMap]
    simp only [listsOf, List.foldl_map, List.foldl_filter, decide_eq_true_eq]
    rfl
  rw [hloop, KeywordSet.addAll_flatMap _ (by decide)]
  simp only [List.isEmpty_map, ← List.flatMap_def]

/-- If every category has at most one of its labels among the lists, its words are those of that
label. -/
theorem toKeywordSet_eq {keywords : HostKeywords} {find : Category → Option WordList}
    (h : ∀ category, keywords.listsOf category = (find category).toList) :
    keywords.toKeywordSet =
      ⟨keywords.pattern.getD defaultKeywordPattern, Category.all.filterMap fun category =>
        (find category).map fun list => ⟨category, list.words⟩⟩ := by
  rw [toKeywordSet_eq_groupsOf, groupsOf, ← List.filterMap_eq_filter, List.map_filterMap]
  simp only [h]
  refine congrArg (KeywordSet.mk _) (List.filterMap_congr fun category _ => ?_)
  cases hlist : find category <;> simp [Option.guard, hlist]

end HostKeywords

namespace KeywordSet

/-- For each category the last group that has it, in the order of the categories. -/
def lastGroups (groups : List KeywordGroup) : List KeywordGroup :=
  Category.all.filterMap fun category => groups.findRev? (·.category = category)

theorem map_findRev?_category (groups : List KeywordGroup) (category : Category) :
    (groups.findRev? (·.category = category)).map (fun group => ⟨category, group.words⟩) =
      groups.findRev? (·.category = category) := by
  cases hgroup : groups.findRev? (·.category = category) with
  | none => rfl
  | some group =>
      rw [List.findRev?_eq_find?_reverse] at hgroup
      have hcategory := List.find?_some hgroup
      obtain rfl : group.category = category := of_decide_eq_true hcategory
      rfl

/-- A keyword set comes back from the object that it is written to with the last group of each
category. -/
theorem exists_toKeywordSet_eq (set : KeywordSet) (shape : HostShape) :
    ∃ keywords, HostKeywords.ofJson? (set.toHost shape) = some (some keywords) ∧
      keywords.toKeywordSet = ⟨set.pattern, lastGroups set.groups⟩ := by
  obtain ⟨keywords, hkeywords, hpattern, horder, hlists⟩ := exists_ofJson?_toHost set shape
  refine ⟨keywords, hkeywords, ?_⟩
  have hfound : ∀ category, keywords.listsOf category =
        ((set.groups.findRev? (·.category = category)).map (WordList.list ·.words)).toList := by
    intro category
    rw [HostKeywords.listsOf_eq horder, ← filterMap_labels shape]
    refine List.filterMap_congr fun label hlabel => ?_
    rw [hlists label (Category.ne_keywordPatternKey_of_mem_labels hlabel),
      findRev?_of_mem_labels set.groups hlabel, apply_ite (Option.map _), Option.map_none]
  rw [HostKeywords.toKeywordSet_eq hfound, hpattern]
  simp only [Option.map_map, Function.comp_def, WordList.words, map_findRev?_category]
  rfl

end KeywordSet

end CodeTint
