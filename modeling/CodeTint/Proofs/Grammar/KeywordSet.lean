import Mathlib.Data.List.Induction
import Mathlib.Data.List.Nodup
import CodeTint.Grammar.Basic

/-!
# Words that are added in turn

Lists of words that are added one after the other give one group for each category that comes up,
with all words of that category (`KeywordSet.groups_addAll`). The groups stand in the order in which
their categories came up first, and this order alone decides to which category a word belongs that
was added under several (`KeywordSet.addAll_ofPattern`).
-/

namespace CodeTint

/-! ## The first group that lists a word -/

namespace KeywordSet

variable {set : KeywordSet} {category : Category} {word : String}

theorem categoryOf?_eq_some_iff :
    set.categoryOf? word = some category ↔ ∃ front group back,
      set.groups = front ++ group :: back ∧ group.category = category ∧ word ∈ group.words ∧
        ∀ other ∈ front, word ∉ other.words := by
  rw [categoryOf?, Option.map_eq_some_iff]
  simp only [List.find?_eq_some_iff_append, List.contains_iff_mem, Bool.not_eq_true']
  constructor
  · rintro ⟨group, ⟨hword, front, back, hgroups, hfront⟩, hcategory⟩
    refine ⟨front, group, back, hgroups, hcategory, hword, fun other hother hmem => ?_⟩
    exact Bool.false_ne_true ((hfront other hother).symm.trans (List.contains_iff_mem.mpr hmem))
  · rintro ⟨front, group, back, hgroups, hcategory, hword, hfront⟩
    refine ⟨group, ⟨hword, front, back, hgroups, fun other hother => ?_⟩, hcategory⟩
    exact eq_false_of_ne_true fun hmem => hfront other hother (List.contains_iff_mem.mp hmem)

theorem categoryOf?_eq_none_iff :
    set.categoryOf? word = none ↔ ∀ group ∈ set.groups, word ∉ group.words := by
  simp [categoryOf?]

end KeywordSet

/-! ## Groups of given categories -/

/-- A group for each of the categories. -/
def groupsOf (categories : List Category) (words : Category → List String) : List KeywordGroup :=
  categories.map fun category => ⟨category, words category⟩

section Groups

variable {categories : List Category} {category : Category} {words : Category → List String}

theorem map_category_groupsOf (categories : List Category) (words : Category → List String) :
    (groupsOf categories words).map (·.category) = categories := by
  rw [groupsOf, List.map_map]
  exact List.map_id categories

/-- The words of a category come behind those that it has, or into a new last group, and the other
groups stay as they are. -/
theorem addToGroups_groupsOf (added : List String) (hnodup : categories.Nodup)
    (hnew : category ∉ categories → words category = []) :
    addToGroups category added (groupsOf categories words) =
      groupsOf (if category ∈ categories then categories else categories ++ [category])
        (Function.update words category (words category ++ added)) := by
  induction categories with
  | nil =>
      rw [hnew List.not_mem_nil, if_neg List.not_mem_nil, List.nil_append, List.nil_append]
      simp [groupsOf, addToGroups]
  | cons first categories ih =>
      obtain ⟨hfirst, hnodup⟩ := List.nodup_cons.mp hnodup
      rw [groupsOf, List.map_cons, addToGroups]
      by_cases heq : first = category
      · subst heq
        have hothers : ∀ other ∈ categories,
            Function.update words first (words first ++ added) other = words other :=
          fun other hother => Function.update_of_ne (ne_of_mem_of_not_mem hother hfirst) _ _
        rw [if_pos rfl, if_pos List.mem_cons_self, groupsOf, List.map_cons, Function.update_self]
        exact congrArg _ (List.map_congr_left fun other hother => by rw [hothers other hother])
      · have hmem : category ∈ first :: categories ↔ category ∈ categories := by
          simp [Ne.symm heq]
        have hrest := ih hnodup fun hnot => hnew (mt hmem.mp hnot)
        rw [groupsOf] at hrest
        rw [if_neg heq, hrest]
        simp only [hmem]
        split <;> simp [groupsOf, heq]

/-- A word belongs to the first of the categories that has it. -/
theorem KeywordSet.categoryOf?_groupsOf (pattern word : String) :
    KeywordSet.categoryOf? ⟨pattern, groupsOf categories words⟩ word =
      categories.find? fun category => (words category).contains word := by
  rw [KeywordSet.categoryOf?, groupsOf, List.find?_map, Option.map_map]
  exact Option.map_id_apply

theorem KeywordSet.wordsOf_groupsOf (pattern : String) (hnodup : categories.Nodup) :
    KeywordSet.wordsOf ⟨pattern, groupsOf categories words⟩ category =
      if category ∈ categories then words category else [] := by
  rw [KeywordSet.wordsOf, groupsOf, List.filter_map]
  induction categories with
  | nil => rfl
  | cons first categories ih =>
      obtain ⟨hfirst, hnodup⟩ := List.nodup_cons.mp hnodup
      by_cases heq : first = category
      · subst heq
        have hothers := ih hnodup
        rw [if_neg hfirst] at hothers
        simpa using hothers
      · simpa [heq, Ne.symm heq] using ih hnodup

end Groups

/-! ## The order in which things come up first -/

section First

variable {α : Type}

theorem eraseDups_append_singleton [DecidableEq α] (as : List α) (a : α) :
    (as ++ [a]).eraseDups = if a ∈ as then as.eraseDups else as.eraseDups ++ [a] := by
  rw [List.eraseDups_append]
  by_cases h : a ∈ as
  · simp [List.removeAll, h]
  · simp [List.removeAll, h, List.eraseDups_cons]

/-- Without repetitions, a list stands in the order in which its items come up first. -/
theorem pairwise_idxOf_eraseDups [DecidableEq α] (as : List α) :
    as.eraseDups.Pairwise fun a b => as.idxOf a < as.idxOf b := by
  induction as using List.reverseRecOn with
  | nil => exact List.Pairwise.nil
  | append_singleton as last ih =>
      -- What comes behind changes nothing about the places that are known.
      have hfirst : as.eraseDups.Pairwise fun a b =>
          (as ++ [last]).idxOf a < (as ++ [last]).idxOf b := by
        refine ih.imp_of_mem fun ha hb hlt => ?_
        rwa [List.idxOf_append_of_mem (List.mem_eraseDups.mp ha),
          List.idxOf_append_of_mem (List.mem_eraseDups.mp hb)]
      rw [eraseDups_append_singleton]
      split
      · exact hfirst
      next hlast =>
        refine List.pairwise_append.mpr ⟨hfirst, List.pairwise_singleton _ _, fun a ha b hb => ?_⟩
        obtain rfl := List.mem_singleton.mp hb
        have ha := List.mem_eraseDups.mp ha
        rw [List.idxOf_append_of_mem ha, List.idxOf_append_of_notMem hlast]
        exact Nat.lt_of_lt_of_le (List.idxOf_lt_length_of_mem ha) (Nat.le_add_right _ _)

theorem nodup_eraseDups [DecidableEq α] (as : List α) : as.eraseDups.Nodup := by
  refine (pairwise_idxOf_eraseDups as).imp ?_
  rintro a b hlt rfl
  exact Nat.lt_irrefl _ hlt

/-- If items come in blocks of equals, what is left without repetitions is one for each block. -/
theorem eraseDups_flatMap {α β : Type} [DecidableEq α] {order : List α} (hnodup : order.Nodup)
    (items : α → List β) :
    (order.flatMap fun a => (items a).map fun _ => a).eraseDups =
      order.filter fun a => !(items a).isEmpty := by
  induction order with
  | nil => rfl
  | cons a order ih =>
      obtain ⟨ha, hnodup⟩ := List.nodup_cons.mp hnodup
      have hothers : (order.flatMap fun a => (items a).map fun _ => a).removeAll
          ((items a).map fun _ => a) = order.flatMap fun a => (items a).map fun _ => a := by
        refine List.filter_eq_self.mpr fun b hb => ?_
        have hb : b ∈ order := by
          obtain ⟨other, hother, hmem⟩ := List.mem_flatMap.mp hb
          obtain ⟨_, -, rfl⟩ := List.mem_map.mp hmem
          exact hother
        have hne : b ≠ a := ne_of_mem_of_not_mem hb ha
        simp [hne]
      rw [List.flatMap_cons, List.eraseDups_append, hothers, ih hnodup, List.filter_cons]
      cases items a with
      | nil => rfl
      | cons item rest =>
          have hblock : ∀ rest : List β, (rest.map fun _ => a).filter (fun b => !b == a) = [] := by
            intro rest
            simp
          rw [List.map_cons, List.eraseDups_cons, hblock]
          rfl

/-- What is found in an ordered list is the least of what satisfies the condition. -/
theorem find?_eq_some_iff_of_pairwise {as : List α} {key : α → Nat} {p : α → Bool} {a : α}
    (horder : as.Pairwise fun a b => key a < key b) :
    as.find? p = some a ↔ a ∈ as ∧ p a ∧ ∀ b ∈ as, p b → key a ≤ key b := by
  induction as with
  | nil => simp
  | cons first others ih =>
      obtain ⟨hfirst, hothers⟩ := List.pairwise_cons.mp horder
      rw [List.find?_cons]
      cases hp : p first with
      | true =>
          constructor
          · rintro ⟨rfl⟩
            refine ⟨List.mem_cons_self, hp, List.forall_mem_cons.mpr ⟨fun _ => Nat.le_refl _, ?_⟩⟩
            exact fun b hb _ => Nat.le_of_lt (hfirst b hb)
          · rintro ⟨ha, -, hleast⟩
            rcases List.mem_cons.mp ha with rfl | ha
            · rfl
            · exact absurd (hleast first List.mem_cons_self hp) (Nat.not_le_of_lt (hfirst a ha))
      | false =>
          rw [ih hothers]
          constructor
          · rintro ⟨ha, hpa, hleast⟩
            refine ⟨List.mem_cons_of_mem _ ha, hpa, List.forall_mem_cons.mpr ⟨?_, hleast⟩⟩
            exact fun hpfirst => absurd (hp.symm.trans hpfirst) Bool.false_ne_true
          · rintro ⟨ha, hpa, hleast⟩
            refine ⟨(List.mem_cons.mp ha).resolve_left ?_, hpa, (List.forall_mem_cons.mp hleast).2⟩
            rintro rfl
            exact absurd (hp.symm.trans hpa) Bool.false_ne_true

end First

/-! ## Adding in turn -/

namespace KeywordSet

variable {additions : List (Category × List String)} {category : Category} {word : String}

/-- The set with lists of words added one after the other. -/
def addAll (set : KeywordSet) (additions : List (Category × List String)) : KeywordSet :=
  additions.foldl (fun set (category, words) => set.add category words) set

/-- All words that are added under the category, in turn. -/
def wordsAdded (additions : List (Category × List String)) (category : Category) : List String :=
  (additions.filter (·.1 = category)).flatMap (·.2)

/-- The place of the first list that is added under the category, with or without words. -/
def firstAddition (additions : List (Category × List String)) (category : Category) : Nat :=
  (additions.map (·.1)).idxOf category

/-- One of the lists that are added under the category holds the word. -/
def IsAddedUnder (additions : List (Category × List String)) (word : String)
    (category : Category) : Prop :=
  ∃ words, (category, words) ∈ additions ∧ word ∈ words

theorem mem_wordsAdded_iff :
    word ∈ wordsAdded additions category ↔ IsAddedUnder additions word category := by
  simp [wordsAdded, IsAddedUnder, and_assoc]

theorem IsAddedUnder.mem (h : IsAddedUnder additions word category) :
    category ∈ additions.map (·.1) := by
  obtain ⟨words, hwords, -⟩ := h
  exact List.mem_map.mpr ⟨_, hwords, rfl⟩

theorem wordsAdded_eq_nil (h : category ∉ additions.map (·.1)) :
    wordsAdded additions category = [] := by
  rw [wordsAdded, List.filter_eq_nil_iff.mpr, List.flatMap_nil]
  exact fun addition hmem heq => h (List.mem_map.mpr ⟨addition, hmem, of_decide_eq_true heq⟩)

theorem wordsAdded_append (additions others : List (Category × List String))
    (category : Category) :
    wordsAdded (additions ++ others) category =
      wordsAdded additions category ++ wordsAdded others category := by
  rw [wordsAdded, List.filter_append, List.flatMap_append]
  rfl

theorem wordsAdded_append_singleton (additions : List (Category × List String))
    (words : List String) :
    wordsAdded (additions ++ [(category, words)]) =
      Function.update (wordsAdded additions) category (wordsAdded additions category ++ words) := by
  funext other
  rw [Function.update_apply]
  by_cases heq : other = category
  · simp [wordsAdded, heq]
  · simp [wordsAdded, heq, Ne.symm heq]

/-- Each category that came up has a group with all its words, in the order of coming up. -/
theorem groups_addAll (pattern : String) (additions : List (Category × List String)) :
    (ofPattern pattern).addAll additions =
      ⟨pattern, groupsOf (additions.map (·.1)).eraseDups (wordsAdded additions)⟩ := by
  induction additions using List.reverseRecOn with
  | nil => rfl
  | append_singleton additions addition ih =>
      obtain ⟨category, words⟩ := addition
      rw [addAll] at ih ⊢
      rw [List.foldl_append, ih, List.map_append, List.map_singleton, eraseDups_append_singleton,
        wordsAdded_append_singleton]
      refine congrArg (KeywordSet.mk pattern) ?_
      refine (addToGroups_groupsOf words (nodup_eraseDups _) fun hnew => ?_).trans ?_
      · exact wordsAdded_eq_nil fun hmem => hnew (List.mem_eraseDups.mpr hmem)
      · simp only [List.mem_eraseDups]

theorem wordsAdded_flatMap {order : List Category} (hnodup : order.Nodup)
    (lists : Category → List (List String)) (h : category ∈ order) :
    wordsAdded (order.flatMap fun category => (lists category).map (category, ·)) category =
      (lists category).flatten := by
  induction order with
  | nil => cases h
  | cons first order ih =>
      obtain ⟨hfirst, hnodup⟩ := List.nodup_cons.mp hnodup
      rw [List.flatMap_cons, wordsAdded_append]
      by_cases heq : first = category
      · subst heq
        have hothers : wordsAdded (order.flatMap fun category =>
            (lists category).map (category, ·)) first = [] := by
          refine wordsAdded_eq_nil fun hmem => hfirst ?_
          simp only [List.map_flatMap, List.map_map, List.mem_flatMap, List.mem_map] at hmem
          obtain ⟨_, hother, _, -, rfl⟩ := hmem
          exact hother
        rw [hothers, List.append_nil]
        simp [wordsAdded, List.filter_map, List.flatMap_map, Function.comp_def]
      · rw [ih hnodup ((List.mem_cons.mp h).resolve_left (Ne.symm heq))]
        simp [wordsAdded, List.filter_map, Function.comp_def, heq]

/-- Lists that come category by category give each category that has one a group with its words. -/
theorem addAll_flatMap (pattern : String) {order : List Category} (hnodup : order.Nodup)
    (lists : Category → List (List String)) :
    (ofPattern pattern).addAll (order.flatMap fun category =>
        (lists category).map (category, ·)) =
      ⟨pattern, groupsOf (order.filter fun category => !(lists category).isEmpty)
        fun category => (lists category).flatten⟩ := by
  rw [groups_addAll, List.map_flatMap]
  simp only [List.map_map, Function.comp_def]
  rw [eraseDups_flatMap hnodup]
  refine congrArg (KeywordSet.mk pattern) (List.map_congr_left fun category hmem => ?_)
  rw [wordsAdded_flatMap hnodup lists (List.mem_filter.mp hmem).1]

/-- After any lists of words were added, the groups have different categories, in the order in which
lists were first added under them. The words of a category are those that were added under it, one
list behind the other. A word belongs to that category, of those under which it was added, under
which a list was added first, even if that list did not hold the word. -/
theorem addAll_ofPattern (pattern : String) (additions : List (Category × List String)) :
    let set := (ofPattern pattern).addAll additions
    set.pattern = pattern ∧
      (set.groups.map (·.category)).Nodup ∧
      (set.groups.map (·.category)).Pairwise
        (fun one other => firstAddition additions one < firstAddition additions other) ∧
      (∀ category, category ∈ set.groups.map (·.category) ↔ category ∈ additions.map (·.1)) ∧
      (∀ category, set.wordsOf category =
        (additions.filter (·.1 = category)).flatMap (·.2)) ∧
      (∀ word category, set.categoryOf? word = some category ↔
        IsAddedUnder additions word category ∧ ∀ other, IsAddedUnder additions word other →
          firstAddition additions category ≤ firstAddition additions other) ∧
      ∀ word, set.categoryOf? word = none ↔ ∀ category, ¬IsAddedUnder additions word category := by
  intro set
  have hset : set = ⟨pattern, groupsOf (additions.map (·.1)).eraseDups (wordsAdded additions)⟩ :=
    groups_addAll pattern additions
  have hcategories : set.groups.map (·.category) = (additions.map (·.1)).eraseDups := by
    rw [hset, map_category_groupsOf]
  have horder := pairwise_idxOf_eraseDups (additions.map (·.1))
  refine ⟨by rw [hset], ?_, ?_, fun category => ?_, fun category => ?_, fun word category => ?_,
    fun word => ?_⟩
  · rw [hcategories]
    exact nodup_eraseDups _
  · rw [hcategories]
    exact horder
  · rw [hcategories, List.mem_eraseDups]
  · rw [hset, wordsOf_groupsOf pattern (nodup_eraseDups _)]
    simp only [List.mem_eraseDups]
    split
    · rfl
    · exact (wordsAdded_eq_nil ‹_›).symm
  · rw [hset, categoryOf?_groupsOf, find?_eq_some_iff_of_pairwise horder]
    simp only [List.mem_eraseDups, List.contains_iff_mem, mem_wordsAdded_iff]
    exact ⟨fun ⟨_, hword, hleast⟩ => ⟨hword, fun other hother => hleast other hother.mem hother⟩,
      fun ⟨hword, hleast⟩ => ⟨hword.mem, hword, fun other _ hother => hleast other hother⟩⟩
  · rw [hset, categoryOf?_groupsOf, List.find?_eq_none]
    simp only [List.mem_eraseDups, List.contains_iff_mem, mem_wordsAdded_iff]
    exact ⟨fun h category hword => h category hword.mem hword, fun h category _ => h category⟩

/-- The built-in words come first, although their first list is empty. -/
example :
    let set := (ofPattern "\\w+").addAll [(.builtIn, []), (.keyword, ["if"]), (.builtIn, ["if"])]
    set.categoryOf? "if" = some .builtIn :=
  rfl

end KeywordSet

end CodeTint
