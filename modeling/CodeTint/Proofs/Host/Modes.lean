import CodeTint.Proofs.Host.Declarations

/-!
# Modes of host objects

A rule is written to a mode that declares it in one of three forms: a region is the only variant of
its mode, a single pattern stands in the mode itself, and several patterns are variants. Each form
is read back as the rule (`HostMode.rules_hostMode`), except that a pattern rule without patterns
leaves a mode that declares nothing.
-/

namespace CodeTint

/-! ## Reading a mode -/

theorem hostModes?_map {α : Type} {json : α → Json} {mode : α → HostMode}
    (h : ∀ item, HostMode.ofJson? (json item) = some (mode item)) (items : List α) :
    hostModes? (items.map json) = some (items.map mode) := by
  induction items with
  | nil => rfl
  | cons item items ih => simp [hostModes?, h, ih]

namespace HostKeys

/-- The keys of a mode that leaves everything else to its variants. -/
def ofLabel (label : String) : HostKeys :=
  { empty with label := some label }

def ofPattern (shape : HostShape) (label : Option String) (pattern : String) : HostKeys :=
  match shape with
  | .legacy => { empty with label, opening := some pattern }
  | .modern => { empty with label, pattern := some pattern }

def ofRegion (rule : RegionRule) : HostKeys :=
  { empty with
    opening := some rule.opening
    closing := some rule.closing
    illegal := rule.illegal }

end HostKeys

/-- The mode in which a rule is written. -/
def Rule.hostMode (shape : HostShape) (rule : Rule) : HostMode :=
  let label := shape.label rule.category
  match rule with
  | .region rule => .mk (.ofLabel label) ([HostKeys.ofRegion rule].map (.mk · []))
  | .pattern ⟨_, [variant]⟩ => .mk (.ofPattern shape (some label) variant) []
  | .pattern ⟨_, variants⟩ =>
    .mk (.ofLabel label) ((variants.map (HostKeys.ofPattern shape none)).map (.mk · []))

namespace HostMode

/-- A mode with a label and variants, and no other keys. -/
theorem ofJson?_of_variants {shape : HostShape} {items : List Json} {variants : List HostMode}
    (label : String) (h : hostModes? items = some variants) :
    HostMode.ofJson?
        (.ofMembers [(shape.classKey, .string label), ("variants", .array items)]) =
      some (.mk (.ofLabel label) variants) := by
  cases shape
  case legacy =>
    change HostMode.ofJson? (.object [("className", .string label), ("variants", .array items)]) = _
    simp [HostMode.ofJson?, hostModeMembers?, h, HostKeys.set?, optionalText?, HostKeys.ofLabel]
  case modern =>
    change HostMode.ofJson? (.object [("scope", .string label), ("variants", .array items)]) = _
    simp [HostMode.ofJson?, hostModeMembers?, h, HostKeys.set?, optionalText?, HostKeys.ofLabel]

theorem ofJson?_region (rule : RegionRule) :
    HostMode.ofJson? (.ofMembers ([("begin", .string rule.opening), ("end", .string rule.closing)]
        ++ Json.optionalMember "illegal" rule.illegal)) =
      some (.mk (.ofRegion rule) []) := by
  obtain ⟨category, opening, closing, illegal⟩ := rule
  cases illegal <;> rfl

theorem ofJson?_pattern (shape : HostShape) (pattern : String) :
    HostMode.ofJson? (.ofMembers [patternMember shape pattern]) =
      some (.mk (.ofPattern shape none pattern) []) := by
  cases shape <;> rfl

theorem ofJson?_labelled_pattern (shape : HostShape) (label pattern : String) :
    HostMode.ofJson?
        (.ofMembers [(shape.classKey, .string label), patternMember shape pattern]) =
      some (.mk (.ofPattern shape (some label) pattern) []) := by
  cases shape <;> rfl

theorem ofJson?_toHost (shape : HostShape) (rule : Rule) :
    HostMode.ofJson? (rule.toHost shape) = some (rule.hostMode shape) := by
  match rule with
  | .region rule =>
      refine ofJson?_of_variants (shape.label rule.category) ?_
      rw [hostModes?, ofJson?_region]
      rfl
  | .pattern ⟨category, [variant]⟩ =>
      exact ofJson?_labelled_pattern shape (shape.label category) variant
  | .pattern ⟨category, []⟩ => exact ofJson?_of_variants (shape.label category) rfl
  | .pattern ⟨category, first :: second :: variants⟩ =>
      refine ofJson?_of_variants (shape.label category) ?_
      rw [List.map_map]
      exact hostModes?_map (ofJson?_pattern shape) (first :: second :: variants)

end HostMode

/-! ## What a mode declares -/

/-- The rule is a list of patterns without a pattern, which finds no token. -/
def Rule.isVoid : Rule → Bool
  | .region _ => false
  | .pattern rule => rule.variants.isEmpty

theorem Category.ofLabel?_label (shape : HostShape) (category : Category) :
    Category.ofLabel? (shape.label category) = some category := by
  cases shape <;> cases category <;> rfl

/-- Patterns alone are the variants of one rule. -/
theorem ModeRules.foldl_add_patterns (category : Category) (first : String)
    (patterns : List String) :
    ((first :: patterns).map Declaration.pattern).foldl (add category) .empty =
      around [] ⟨category, first :: patterns⟩ [] := by
  have hfold := foldl_add_around category (patterns.map .pattern) [] [] [first]
  have hpatterns : (patterns.map Declaration.pattern).filterMap (·.pattern?) = patterns := by
    rw [List.filterMap_map]
    exact List.filterMap_some
  have hregions : (patterns.map Declaration.pattern).filterMap (·.region? category) = [] := by
    rw [List.filterMap_map]
    exact List.filterMap_eq_nil_iff.mpr fun _ _ => rfl
  rwa [hpatterns, hregions] at hfold

namespace HostMode

theorem rules_mk (keys : HostKeys) (variants : List HostMode) {shape : HostShape}
    {category : Category} (hlabel : keys.label = some (shape.label category)) :
    (mk keys variants).rules =
      (mk keys variants).declarations.map fun declarations =>
        (declarations.foldl (ModeRules.add category) .empty).rules := by
  have hcategory : keys.category = .ok category := by
    rw [HostKeys.category, hlabel]
    simp only [Category.ofLabel?_label]
  simp only [rules, hcategory, bind, Except.bind, pure, Except.pure]
  cases (mk keys variants).declarations <;> rfl

theorem declaration_ofPattern (shape : HostShape) (label : Option String) (pattern : String) :
    (HostKeys.ofPattern shape label pattern).declaration = .ok (.pattern pattern) := by
  cases shape <;> rfl

theorem inherit_ofLabel (keys : HostKeys) (label : String) :
    keys.inherit (.ofLabel label) = keys := by
  simp [HostKeys.inherit, HostKeys.ofLabel, HostKeys.empty]

theorem declarations_ofLabel (label : String) {variants : List HostKeys} (h : variants ≠ []) :
    (mk (.ofLabel label) (variants.map (mk · []))).declarations =
      variants.mapM HostKeys.declaration := by
  rw [declarations, List.mapM_map]
  · refine congrArg (List.mapM · variants) (funext fun keys => ?_)
    exact congrArg HostKeys.declaration (inherit_ofLabel keys label)
  · exact fun hnil => h (List.map_eq_nil_iff.mp hnil)

theorem mapM_declaration_ofPattern (shape : HostShape) (label : Option String)
    (patterns : List String) :
    (patterns.map (HostKeys.ofPattern shape label)).mapM HostKeys.declaration =
      .ok (patterns.map .pattern) := by
  rw [List.mapM_map, Function.comp_def]
  simp only [declaration_ofPattern]
  exact List.mapM_pure

/-- A rule comes back from its mode, unless it is void. -/
theorem rules_hostMode (shape : HostShape) (rule : Rule) :
    (rule.hostMode shape).rules = if rule.isVoid then .error .noPattern else .ok [rule] := by
  match rule with
  | .region rule =>
      refine (rules_mk (.ofLabel (shape.label rule.category)) _ rfl).trans ?_
      rw [declarations_ofLabel _ (List.cons_ne_nil _ _)]
      rfl
  | .pattern ⟨category, []⟩ => exact rules_mk (.ofLabel (shape.label category)) [] rfl
  | .pattern ⟨category, [variant]⟩ =>
      have hlabel : (HostKeys.ofPattern shape (some (shape.label category)) variant).label =
          some (shape.label category) := by
        cases shape <;> rfl
      refine (rules_mk _ [] hlabel).trans ?_
      rw [declarations, declaration_ofPattern]
      rfl
  | .pattern ⟨category, first :: second :: variants⟩ =>
      refine (rules_mk (.ofLabel (shape.label category)) _ rfl).trans ?_
      rw [declarations_ofLabel _ (by simp), mapM_declaration_ofPattern]
      have hfold := ModeRules.foldl_add_patterns category first (second :: variants)
      exact congrArg (fun state => Except.ok state.rules) hfold

end HostMode

/-- The modes of rules give the rules, or the place of the first rule without a pattern. -/
theorem rulesOfModes_map_hostMode (name : String) (shape : HostShape) (index : Nat)
    (rules : List Rule) :
    rulesOfModes name index (rules.map (Rule.hostMode shape)) =
      match rules.findIdx? Rule.isVoid with
      | some place => .error (.badMode (index + place) name .noPattern)
      | none => .ok rules := by
  induction rules generalizing index with
  | nil => rfl
  | cons rule rules ih =>
      rw [List.map_cons, rulesOfModes, HostMode.rules_hostMode, List.findIdx?_cons]
      cases hvoid : rule.isVoid with
      | true => rfl
      | false =>
          simp only [Bool.false_eq_true, if_false, ih]
          cases rules.findIdx? Rule.isVoid with
          | none => rfl
          | some place =>
              change Except.error (ImportError.badMode (index + 1 + place) name .noPattern) = _
              rw [Nat.add_assoc, Nat.add_comm 1 place]
              rfl

end CodeTint
