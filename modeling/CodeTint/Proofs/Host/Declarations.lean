import CodeTint.Proofs.Host.Reading

/-!
# The rules of a mode

A mode is turned into rules declaration by declaration. Whatever the order of its regions and its
patterns, the regions stay as they follow each other, and the patterns come together in one rule
where the first of them stood (`ModeRules.foldl_add_empty`). There is no other way to arrange the
declarations like that (`arranges_iff`), and nothing else in a mode counts
(`HostMode.rules_eq_ok_iff_arranges`).
-/

namespace CodeTint

/-! ## Regions and patterns -/

namespace Declaration

def region? (category : Category) : Declaration → Option RegionRule
  | region opening closing illegal => some ⟨category, opening, closing, illegal⟩
  | pattern _ => none

def pattern? : Declaration → Option String
  | region _ _ _ => none
  | pattern source => some source

variable {category : Category} {opening closing source : String} {illegal : Option String}

@[simp] theorem region?_region : (region opening closing illegal).region? category =
    some ⟨category, opening, closing, illegal⟩ := rfl

@[simp] theorem region?_pattern : (pattern source).region? category = none := rfl

@[simp] theorem pattern?_region : (region opening closing illegal).pattern? = none := rfl

@[simp] theorem pattern?_pattern : (pattern source).pattern? = some source := rfl

end Declaration

namespace Rule

def region? : Rule → Option RegionRule
  | region rule => some rule
  | pattern _ => none

def pattern? : Rule → Option PatternRule
  | region _ => none
  | pattern rule => some rule

@[simp] theorem region?_pattern (rule : PatternRule) : (pattern rule).region? = none := rfl

@[simp] theorem pattern?_pattern (rule : PatternRule) : (pattern rule).pattern? = some rule := rfl

end Rule

section Arrange

variable {category : Category} {declarations : List Declaration}

/-- The rule that all the patterns come to, if there are any. -/
def patternRule? (category : Category) (declarations : List Declaration) : Option PatternRule :=
  if declarations.filterMap Declaration.pattern? = [] then none
  else some ⟨category, declarations.filterMap Declaration.pattern?⟩

namespace ModeRules

variable {front back regions : List RegionRule}

def ofRegions (regions : List RegionRule) : ModeRules :=
  ⟨regions.map Rule.region, none⟩

/-- A rule for patterns between regions, with its place. -/
def around (front : List RegionRule) (rule : PatternRule) (back : List RegionRule) : ModeRules :=
  ⟨front.map Rule.region ++ .pattern rule :: back.map Rule.region, some front.length⟩

theorem add_region_ofRegions (category : Category) (opening closing : String)
    (illegal : Option String) :
    (ofRegions regions).add category (.region opening closing illegal) =
      ofRegions (regions ++ [⟨category, opening, closing, illegal⟩]) := by
  simp [add, ofRegions]

/-- The first pattern makes a rule, whose place is remembered. -/
theorem add_pattern_ofRegions (category : Category) (source : String) :
    (ofRegions regions).add category (.pattern source) =
      around regions ⟨category, [source]⟩ [] := by
  simp [add, ofRegions, around]

theorem add_region_around (category : Category) (rule : PatternRule) (opening closing : String)
    (illegal : Option String) :
    (around front rule back).add category (.region opening closing illegal) =
      around front rule (back ++ [⟨category, opening, closing, illegal⟩]) := by
  simp [add, around]

theorem modify_map_region_append (f : Rule → Rule) (regions : List RegionRule) (rule : Rule)
    (rules : List Rule) :
    (regions.map Rule.region ++ rule :: rules).modify regions.length f =
      regions.map Rule.region ++ f rule :: rules := by
  induction regions with
  | nil => rfl
  | cons region regions ih => simp [ih]

/-- The rule at the remembered place is one for patterns, so that no pattern is lost. -/
theorem add_pattern_around (category : Category) (rule : PatternRule) (source : String) :
    (around front rule back).add category (.pattern source) =
      around front { rule with variants := rule.variants ++ [source] } back := by
  simp only [add, around, modify_map_region_append]
  rfl

/-- Once there is a rule for patterns, all further patterns go there and all further regions to the
end. -/
theorem foldl_add_around (category : Category) (declarations : List Declaration)
    (front back : List RegionRule) (variants : List String) :
    declarations.foldl (add category) (around front ⟨category, variants⟩ back) =
      around front ⟨category, variants ++ declarations.filterMap Declaration.pattern?⟩
        (back ++ declarations.filterMap (·.region? category)) := by
  induction declarations generalizing variants back with
  | nil => simp
  | cons declaration declarations ih =>
      cases declaration with
      | region opening closing illegal =>
          rw [List.foldl_cons, add_region_around, ih]
          simp [List.filterMap_cons]
      | pattern source =>
          rw [List.foldl_cons, add_pattern_around, ih]
          simp [List.filterMap_cons]

/-- As long as no pattern has come, the regions follow each other. -/
theorem foldl_add_ofRegions (category : Category) (declarations : List Declaration)
    (regions : List RegionRule) :
    declarations.foldl (add category) (ofRegions regions) =
      match patternRule? category declarations with
      | none => ofRegions (regions ++ declarations.filterMap (·.region? category))
      | some rule =>
        around
          (regions ++ (declarations.takeWhile (·.pattern?.isNone)).filterMap (·.region? category))
          rule ((declarations.dropWhile (·.pattern?.isNone)).filterMap (·.region? category)) := by
  induction declarations generalizing regions with
  | nil => simp [patternRule?]
  | cons declaration declarations ih =>
      cases declaration with
      | region opening closing illegal =>
          have hrule : patternRule? category (.region opening closing illegal :: declarations) =
              patternRule? category declarations := rfl
          rw [List.foldl_cons, add_region_ofRegions, ih, hrule]
          cases patternRule? category declarations <;>
            simp [List.takeWhile_cons, List.dropWhile_cons]
      | pattern source =>
          rw [List.foldl_cons, add_pattern_ofRegions, foldl_add_around]
          simp [patternRule?, List.filterMap_cons]

/-- The rules of the declarations: the regions as they follow each other, and the patterns as one
rule where the first of them stood. -/
theorem foldl_add_empty (category : Category) (declarations : List Declaration) :
    declarations.foldl (add category) empty =
      match patternRule? category declarations with
      | none => ofRegions (declarations.filterMap (·.region? category))
      | some rule =>
        around ((declarations.takeWhile (·.pattern?.isNone)).filterMap (·.region? category)) rule
          ((declarations.dropWhile (·.pattern?.isNone)).filterMap (·.region? category)) :=
  foldl_add_ofRegions category declarations []

/-- What is remembered is always the place of the rule for patterns. -/
theorem exists_getElem?_slot {slot : Nat}
    (hslot : (declarations.foldl (add category) empty).slot = some slot) :
    ∃ rule, (declarations.foldl (add category) empty).rules[slot]? = some (.pattern rule) := by
  rw [foldl_add_empty] at hslot ⊢
  cases hrule : patternRule? category declarations with
  | none => rw [hrule] at hslot; cases hslot
  | some rule =>
      rw [hrule] at hslot
      obtain rfl := Option.some.inj hslot
      exact ⟨rule, by simp [around]⟩

end ModeRules

/-- Regions stay, patterns come together: the rules have the regions of the declarations in their
order, and one rule with all the patterns in theirs, if there are any. Behind the regions that stand
in front of the first pattern comes the rule for patterns. -/
structure Arranges (category : Category) (declarations : List Declaration) (rules : List Rule) :
    Prop where
  regions : rules.filterMap Rule.region? = declarations.filterMap (·.region? category)
  patterns : rules.filterMap Rule.pattern? = (patternRule? category declarations).toList
  place : ∀ rule, .pattern rule ∈ rules → ∃ back, rules =
    ((declarations.takeWhile (·.pattern?.isNone)).filterMap (·.region? category)).map Rule.region ++
      .pattern rule :: back

theorem filterMap_region?_map_region (regions : List RegionRule) :
    (regions.map Rule.region).filterMap Rule.region? = regions := by
  rw [List.filterMap_map]
  exact List.filterMap_some

theorem filterMap_pattern?_map_region (regions : List RegionRule) :
    (regions.map Rule.region).filterMap Rule.pattern? = [] := by
  rw [List.filterMap_map]
  exact List.filterMap_eq_nil_iff.mpr fun _ _ => rfl

theorem mem_filterMap_pattern?_iff {rules : List Rule} {rule : PatternRule} :
    rule ∈ rules.filterMap Rule.pattern? ↔ .pattern rule ∈ rules := by
  rw [List.mem_filterMap]
  constructor
  · rintro ⟨_ | other, hmem, heq⟩
    · cases heq
    · exact Option.some.inj heq ▸ hmem
  · exact fun hmem => ⟨_, hmem, rfl⟩

theorem eq_map_region_of_filterMap_pattern? {rules : List Rule}
    (h : rules.filterMap Rule.pattern? = []) :
    rules = (rules.filterMap Rule.region?).map Rule.region := by
  induction rules with
  | nil => rfl
  | cons rule rules ih =>
      cases rule with
      | region rule => exact congrArg _ (ih h)
      | pattern rule => cases h

/-- The regions are those in front of the first pattern, and those that come later. -/
theorem filterMap_region?_eq_append (category : Category) (declarations : List Declaration) :
    declarations.filterMap (·.region? category) =
      (declarations.takeWhile (·.pattern?.isNone)).filterMap (·.region? category) ++
        (declarations.dropWhile (·.pattern?.isNone)).filterMap (·.region? category) := by
  rw [← List.filterMap_append, List.takeWhile_append_dropWhile]

theorem arranges_rules_foldl (category : Category) (declarations : List Declaration) :
    Arranges category declarations
      (declarations.foldl (ModeRules.add category) .empty).rules := by
  rw [ModeRules.foldl_add_empty]
  cases hrule : patternRule? category declarations with
  | none =>
      refine ⟨filterMap_region?_map_region _, ?_, fun rule hmem => ?_⟩
      · rw [hrule]
        exact filterMap_pattern?_map_region _
      · simp [ModeRules.ofRegions] at hmem
  | some own =>
      refine ⟨?_, ?_, fun rule hmem => ?_⟩
      · rw [filterMap_region?_eq_append]
        simp only [ModeRules.around, List.filterMap_append, List.filterMap_cons,
          filterMap_region?_map_region, Rule.region?_pattern]
      · rw [hrule]
        simp only [ModeRules.around, List.filterMap_append, List.filterMap_cons,
          filterMap_pattern?_map_region, Rule.pattern?_pattern, List.nil_append]
        rfl
      · obtain rfl : rule = own := by simpa [ModeRules.around] using hmem
        exact ⟨_, rfl⟩

theorem Arranges.eq_rules_foldl {rules : List Rule} (h : Arranges category declarations rules) :
    rules = (declarations.foldl (ModeRules.add category) .empty).rules := by
  obtain ⟨hregions, hpatterns, hplace⟩ := h
  rw [ModeRules.foldl_add_empty]
  cases hrule : patternRule? category declarations with
  | none =>
      rw [hrule] at hpatterns
      rw [eq_map_region_of_filterMap_pattern? hpatterns, hregions]
      rfl
  | some own =>
      rw [hrule] at hpatterns
      have hmem : own ∈ rules.filterMap Rule.pattern? := by
        rw [hpatterns]
        exact List.mem_singleton.mpr rfl
      obtain ⟨back, rfl⟩ := hplace own (mem_filterMap_pattern?_iff.mp hmem)
      -- Behind the rule for patterns there are only regions, those that are left over.
      rw [List.filterMap_append, filterMap_pattern?_map_region] at hpatterns
      have hback : back.filterMap Rule.pattern? = [] := (List.cons.inj hpatterns).2
      rw [List.filterMap_append, filterMap_region?_map_region,
        filterMap_region?_eq_append category declarations] at hregions
      have hrest : back.filterMap Rule.region? =
          (declarations.dropWhile (·.pattern?.isNone)).filterMap (·.region? category) :=
        List.append_cancel_left hregions
      rw [eq_map_region_of_filterMap_pattern? hback, hrest]
      rfl

/-- There is no other way to arrange the declarations than adding them one by one. -/
theorem arranges_iff {rules : List Rule} :
    Arranges category declarations rules ↔
      rules = (declarations.foldl (ModeRules.add category) .empty).rules :=
  ⟨Arranges.eq_rules_foldl, fun h => h ▸ arranges_rules_foldl category declarations⟩

end Arrange

/-! ## What a mode declares -/

theorem HostKeys.category_eq_ok_iff {keys : HostKeys} {category : Category} :
    keys.category = .ok category ↔ keys.label.bind Category.ofLabel? = some category := by
  rw [HostKeys.category]
  cases keys.label with
  | none => simp
  | some label => cases hlabel : Category.ofLabel? label <;> simp [hlabel]

namespace HostMode

def keys : HostMode → HostKeys
  | mk keys _ => keys

/-- The key has the value for a variant of the mode: it is set to the value by the variant itself,
or left open there and set to it by the mode. A mode without variants is no variant of another. -/
def HasKey (key : HostKeys → Option String) (own : HostKeys) (parent : Option HostKeys)
    (value : String) : Prop :=
  key own = some value ∨ key own = none ∧ ∃ keys ∈ parent, key keys = some value

/-- What the keys declare. With a pattern to match at once nothing else counts; without one, a
beginning and an end are a region, and a beginning alone is a pattern. -/
inductive DeclaresAs (own : HostKeys) (parent : Option HostKeys) : Declaration → Prop
  | matching {source : String} (has_match : HasKey (·.pattern) own parent source) :
      DeclaresAs own parent (.pattern source)
  | region {opening closing : String} {illegal : Option String}
      (no_match : ∀ source, ¬HasKey (·.pattern) own parent source)
      (has_begin : HasKey (·.opening) own parent opening)
      (has_end : HasKey (·.closing) own parent closing)
      (has_illegal : ∀ source, illegal = some source ↔ HasKey (·.illegal) own parent source) :
      DeclaresAs own parent (.region opening closing illegal)
  | beginning {source : String} (no_match : ∀ source, ¬HasKey (·.pattern) own parent source)
      (has_begin : HasKey (·.opening) own parent source)
      (no_end : ∀ closing, ¬HasKey (·.closing) own parent closing) :
      DeclaresAs own parent (.pattern source)

/-- A mode without variants declares what its keys declare. Else each of its variants makes a
declaration, with the keys that it leaves open taken from the mode. -/
inductive Declares : HostMode → List Declaration → Prop
  | itself {keys : HostKeys} {declaration : Declaration} (own : DeclaresAs keys none declaration) :
      Declares (mk keys []) [declaration]
  | variants {keys : HostKeys} {variants : List HostMode} {declarations : List Declaration}
      (ne_nil : variants ≠ [])
      (each : List.Forall₂ (fun variant declaration =>
        DeclaresAs variant.keys (some keys) declaration) variants declarations) :
      Declares (mk keys variants) declarations

section DeclaresAs

variable {key : HostKeys → Option String} {keys own : HostKeys} {parent : Option HostKeys}
  {value : String} {declaration : Declaration}

theorem hasKey_none_iff : HasKey key own none value ↔ key own = some value := by
  simp [HasKey]

theorem hasKey_some_iff : HasKey key own (some keys) value ↔
    (key own).or (key keys) = some value := by
  simp [HasKey, Option.or_eq_some_iff]

/-- The keys that have all that the keys of a variant and its mode have together make the same
declaration. -/
theorem declaration_eq_ok_iff {resolved : HostKeys}
    (hpattern : ∀ value, HasKey (·.pattern) own parent value ↔ resolved.pattern = some value)
    (hopening : ∀ value, HasKey (·.opening) own parent value ↔ resolved.opening = some value)
    (hclosing : ∀ value, HasKey (·.closing) own parent value ↔ resolved.closing = some value)
    (hillegal : ∀ value, HasKey (·.illegal) own parent value ↔ resolved.illegal = some value) :
    resolved.declaration = .ok declaration ↔ DeclaresAs own parent declaration := by
  obtain ⟨label, opening, closing, illegal, pattern⟩ := resolved
  constructor
  · intro h
    cases pattern with
    | some source =>
        obtain rfl := Except.ok.inj h
        exact .matching ((hpattern source).mpr rfl)
    | none =>
        have hnone : ∀ source, ¬HasKey (·.pattern) own parent source := fun source hkey => by
          cases (hpattern source).mp hkey
        cases opening with
        | none => cases h
        | some opening =>
            have hbegin := (hopening opening).mpr rfl
            cases closing with
            | some closing =>
                obtain rfl := Except.ok.inj h
                exact .region hnone hbegin ((hclosing closing).mpr rfl) fun source =>
                  (hillegal source).symm
            | none =>
                obtain rfl := Except.ok.inj h
                exact .beginning hnone hbegin fun source hkey => by
                  cases (hclosing source).mp hkey
  · have hnone : ∀ {value : Option String}, (∀ source, value ≠ some source) → value = none :=
      fun h => Option.eq_none_iff_forall_ne_some.mpr h
    rintro (hmatch | ⟨hmatch, hbegin, hend, hall⟩ | ⟨hmatch, hbegin, hend⟩)
    · obtain rfl := (hpattern _).mp hmatch
      rfl
    · obtain rfl := hnone fun source => mt (hpattern source).mpr (hmatch source)
      obtain rfl := (hopening _).mp hbegin
      obtain rfl := (hclosing _).mp hend
      have hsame : illegal = _ :=
        Option.ext fun source => (hillegal source).symm.trans (hall source).symm
      rw [hsame]
      rfl
    · obtain rfl := hnone fun source => mt (hpattern source).mpr (hmatch source)
      obtain rfl := (hopening _).mp hbegin
      obtain rfl := hnone fun source => mt (hclosing source).mpr (hend source)
      rfl

theorem declaration_eq_ok_iff_itself :
    own.declaration = .ok declaration ↔ DeclaresAs own none declaration :=
  declaration_eq_ok_iff (fun _ => hasKey_none_iff) (fun _ => hasKey_none_iff)
    (fun _ => hasKey_none_iff) fun _ => hasKey_none_iff

theorem declaration_inherit_eq_ok_iff :
    (own.inherit keys).declaration = .ok declaration ↔ DeclaresAs own (some keys) declaration :=
  declaration_eq_ok_iff (fun _ => hasKey_some_iff) (fun _ => hasKey_some_iff)
    (fun _ => hasKey_some_iff) fun _ => hasKey_some_iff

end DeclaresAs

theorem declarations_of_ne_nil (keys : HostKeys) {variants : List HostMode} (h : variants ≠ []) :
    (mk keys variants).declarations =
      variants.mapM fun variant => (variant.keys.inherit keys).declaration := by
  rw [declarations]
  · exact congrArg (List.mapM · variants) (funext fun ⟨_, _⟩ => rfl)
  · exact h

theorem declarations_eq_ok_iff {mode : HostMode} {list : List Declaration} :
    mode.declarations = .ok list ↔ mode.Declares list := by
  obtain ⟨keys, variants⟩ := mode
  by_cases hvariants : variants = []
  · subst hvariants
    rw [declarations]
    constructor
    · intro h
      cases hown : keys.declaration with
      | error cause => rw [hown] at h; cases h
      | ok declaration =>
          rw [hown] at h
          exact Except.ok.inj h ▸ .itself (declaration_eq_ok_iff_itself.mp hown)
    · rintro (hown | ⟨hne, -⟩)
      · rw [declaration_eq_ok_iff_itself.mpr hown]
        rfl
      · exact absurd rfl hne
  · rw [declarations_of_ne_nil keys hvariants, mapM_eq_ok_iff_forall₂]
    simp only [declaration_inherit_eq_ok_iff]
    refine ⟨.variants hvariants, fun h => ?_⟩
    cases h with
    | itself => exact absurd rfl hvariants
    | variants _ heach => exact heach

/-- The mode as a variant, of which neither the label nor the variants count. -/
def bare (mode : HostMode) : HostMode :=
  mk { mode.keys with label := none } []

theorem declarations_map_bare (keys : HostKeys) (variants : List HostMode) :
    (mk keys (variants.map bare)).declarations = (mk keys variants).declarations := by
  by_cases hvariants : variants = []
  · rw [hvariants, List.map_nil]
  · rw [declarations_of_ne_nil keys hvariants,
      declarations_of_ne_nil keys (mt List.map_eq_nil_iff.mp hvariants), List.mapM_map]
    rfl

/-- A mode gives rules if its label means a category and it declares something. The rules have that
category, and arrange what the mode declares: regions stay, and patterns come together. The labels
of its variants, and the variants that they have themselves, make no difference. -/
theorem rules_eq_ok_iff_arranges (keys : HostKeys) (variants : List HostMode) :
    (∀ list, (mk keys variants).rules = .ok list ↔
      ∃ category declarations, keys.label.bind Category.ofLabel? = some category ∧
        (mk keys variants).Declares declarations ∧ Arranges category declarations list) ∧
      (mk keys (variants.map bare)).rules = (mk keys variants).rules := by
  constructor
  · intro list
    rw [rules_eq_ok_iff]
    simp only [← declarations_eq_ok_iff, arranges_iff, ← HostKeys.category_eq_ok_iff]
    simp only [eq_comm (b := list)]
  · rw [rules, declarations_map_bare]
    rfl

/-- A region that takes its end from the mode, between two patterns, of which the last one has a
beginning, a label and variants that do not count. -/
theorem rules_eq_ok_iff_arranges_around_region :
    let keys : HostKeys := ⟨some "string", none, some "'", none, none⟩
    let variants := [mk ⟨none, none, none, none, some "a"⟩ [],
      mk ⟨none, some "'", none, none, none⟩ [],
      mk ⟨some "number", some "c", none, none, some "b"⟩ [mk .empty []]]
    let declarations := [Declaration.pattern "a", .region "'" "'" none, .pattern "b"]
    (mk keys variants).Declares declarations ∧
      (mk keys variants).rules =
        .ok [.pattern ⟨.string, ["a", "b"]⟩, .region ⟨.string, "'", "'", none⟩] := by
  intro keys variants declarations
  have hregion : DeclaresAs ⟨none, some "'", none, none, none⟩ (some keys) (.region "'" "'" none) :=
    .region (fun source => by simp [HasKey, keys]) (.inl rfl) (.inr ⟨rfl, keys, rfl, rfl⟩)
      fun source => by simp [HasKey, keys]
  have hdeclares : (mk keys variants).Declares declarations :=
    .variants (List.cons_ne_nil _ _) (.cons (.matching (.inl rfl)) (.cons hregion
      (.cons (.matching (.inl rfl)) .nil)))
  refine ⟨hdeclares, ((rules_eq_ok_iff_arranges keys variants).1 _).mpr
    ⟨.string, declarations, rfl, hdeclares, ⟨rfl, rfl, fun rule hrule => ?_⟩⟩⟩
  obtain rfl : rule = ⟨.string, ["a", "b"]⟩ := by simpa using hrule
  exact ⟨_, rfl⟩

end HostMode

end CodeTint
