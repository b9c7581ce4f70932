import CodeTint.Proofs.Host.Groups
import CodeTint.Proofs.Host.RoundTrip

/-!
# The normal form of imported grammars

A grammar that was read from a host object has at most one group of words for each category, and
the groups come in the order of the categories; none of its rules is void; and it has the modern
shape only if something in it tells so. In this form (`Grammar.IsNormal`) nothing is lost when the
grammar is written to a host object, whatever the shape, so that it can be handed from one host to
the next as often as one likes (`Grammar.ofHost_stable`).
-/

namespace CodeTint

/-! ## Groups in the order of their categories -/

namespace KeywordSet

variable {set : KeywordSet} {category : Category}

def categories (set : KeywordSet) : List Category :=
  set.groups.map (·.category)

theorem findRev?_cons_of_ne {group : KeywordGroup} (groups : List KeywordGroup)
    (h : group.category ≠ category) :
    (group :: groups).findRev? (·.category = category) =
      groups.findRev? (·.category = category) := by
  rw [List.findRev?]
  cases groups.findRev? (·.category = category) <;> simp [h]

/-- Looking up every category of a list finds the groups again, if they come in that order. -/
theorem filterMap_findRev?_eq_self {order : List Category} (hnodup : order.Nodup)
    {groups : List KeywordGroup} (h : (groups.map (·.category)).Sublist order) :
    order.filterMap (fun category => groups.findRev? (·.category = category)) = groups := by
  induction order generalizing groups with
  | nil =>
      obtain rfl := List.map_eq_nil_iff.mp (List.sublist_nil.mp h)
      rfl
  | cons category order ih =>
      obtain ⟨hne, hnodup⟩ := List.nodup_cons.mp hnodup
      -- No group that stands further back has the first category.
      have hnone : ∀ groups : List KeywordGroup, (groups.map (·.category)).Sublist order →
          groups.findRev? (·.category = category) = none := by
        intro groups hgroups
        rw [List.findRev?_eq_find?_reverse, List.find?_eq_none]
        intro group hgroup hcategory
        have hmem := hgroups.subset (List.mem_map.mpr ⟨group, List.mem_reverse.mp hgroup, rfl⟩)
        exact hne (of_decide_eq_true hcategory ▸ hmem)
      rcases List.sublist_cons_iff.mp h with h | ⟨rest, hrest, h⟩
      · rw [List.filterMap_cons, hnone groups h]
        exact ih hnodup h
      · obtain ⟨group, groups, rfl, hgroup, rfl⟩ := List.map_eq_cons_iff.mp hrest
        have hfirst : (group :: groups).findRev? (·.category = category) = some group := by
          rw [List.findRev?, hnone groups h]
          simp [hgroup]
        have hothers : ∀ other ∈ order, (group :: groups).findRev? (·.category = other) =
            groups.findRev? (·.category = other) :=
          fun other hother => findRev?_cons_of_ne groups fun heq =>
            hne (hgroup.symm.trans heq ▸ hother)
        rw [List.filterMap_cons, hfirst, List.filterMap_congr hothers, ih hnodup h]

theorem lastGroups_eq_self {set : KeywordSet} (h : set.categories.Sublist Category.all) :
    lastGroups set.groups = set.groups :=
  filterMap_findRev?_eq_self (by decide) h

end KeywordSet

/-! ## Rules that are not void -/

/-- There are rules, and none of them is void. -/
structure AreSubstantial (rules : List Rule) : Prop where
  ne_nil : rules ≠ []
  isVoid : ∀ rule ∈ rules, rule.isVoid = false

theorem areSubstantial_foldl_add {category : Category} {declarations : List Declaration}
    (hne : declarations ≠ []) :
    AreSubstantial (declarations.foldl (ModeRules.add category) .empty).rules := by
  obtain ⟨hregions, hpatterns, -⟩ := arranges_iff.mpr
    (Eq.refl (declarations.foldl (ModeRules.add category) .empty).rules)
  refine ⟨fun hnil => hne ?_, fun rule hrule => ?_⟩
  · rw [hnil] at hregions hpatterns
    cases declarations with
    | nil => rfl
    | cons declaration declarations =>
        cases declaration with
        | region opening closing illegal => cases hregions
        | pattern source => simp [patternRule?, Declaration.pattern?] at hpatterns
  · cases rule with
    | region rule => rfl
    | pattern rule =>
        have hmem := mem_filterMap_pattern?_iff.mpr hrule
        rw [hpatterns, Option.mem_toList, patternRule?] at hmem
        split at hmem
        next => cases hmem
        next hne =>
          obtain rfl := Option.some.inj hmem
          exact eq_false_of_ne_true fun hempty => hne (List.isEmpty_iff.mp hempty)

theorem HostMode.declarations_ne_nil {mode : HostMode} {declarations : List Declaration}
    (h : mode.declarations = .ok declarations) : declarations ≠ [] := by
  cases declarations_eq_ok_iff.mp h with
  | itself => exact List.cons_ne_nil _ _
  | variants hne heach =>
      rintro rfl
      exact hne (List.forall₂_nil_right_iff.mp heach)

theorem HostMode.areSubstantial_rules {mode : HostMode} {rules : List Rule}
    (h : mode.rules = .ok rules) : AreSubstantial rules := by
  obtain ⟨keys, variants⟩ := mode
  obtain ⟨category, declarations, -, hdeclarations, rfl⟩ := rules_eq_ok_iff.mp h
  exact areSubstantial_foldl_add (declarations_ne_nil hdeclarations)

theorem isVoid_of_mapM_rules {modes : List HostMode} {lists : List (List Rule)}
    (h : modes.mapM HostMode.rules = .ok lists) :
    (modes ≠ [] → lists.flatten ≠ []) ∧ ∀ rule ∈ lists.flatten, rule.isVoid = false := by
  rw [mapM_eq_ok_iff_forall₂] at h
  have hlists : ∀ list ∈ lists, AreSubstantial list := by
    intro list hlist
    obtain ⟨mode, -, hmode⟩ := Json.exists_mem_of_forall₂ h hlist
    exact HostMode.areSubstantial_rules hmode
  constructor
  · intro hne hnil
    cases h with
    | nil => exact hne rfl
    | cons => exact (hlists _ List.mem_cons_self).ne_nil (List.append_eq_nil_iff.mp hnil).1
  · intro rule hrule
    obtain ⟨list, hlist, hrule⟩ := List.mem_flatten.mp hrule
    exact (hlists list hlist).isVoid rule hrule

/-! ## The shape -/

theorem Json.get?_eq_some_iff {name : String} {value member : Json} :
    value.get? name = some member ↔
      ∃ members, value = .object members ∧ members.lookup name = some member := by
  cases value <;> simp [Json.get?]

/-- Only keys of the modern shape make a host object look modern: a list of words under `type`, or
keys of modes. -/
theorem HostShape.detect_eq_modern_iff {value : Json} :
    detect value = .modern ↔
      (∃ keywords, value.get? "keywords" = some keywords ∧ (keywords.get? "type").isSome) ∨
        ∃ modes, value.get? "contains" = some (.array modes) ∧
          ∃ mode ∈ modes, (mode.get? "scope").isSome ∨ (mode.get? "match").isSome := by
  have htype : ((value.get? "keywords").bind (·.get? "type")).isSome ↔
      ∃ keywords, value.get? "keywords" = some keywords ∧ (keywords.get? "type").isSome := by
    cases value.get? "keywords" <;> simp
  have hif : ∀ b : Bool, (if b then modern else legacy) = .modern ↔ b := by decide
  rw [← htype, detect]
  split
  next modes hcontains =>
    rw [hif, Bool.or_eq_true]
    simp [hcontains]
  next hnone =>
    rw [hif, Bool.or_false]
    refine (or_iff_left ?_).symm
    rintro ⟨modes, hcontains, -⟩
    exact hnone modes hcontains

theorem HostShape.evidence_of_detect {value : Json} (h : detect value = .modern) :
    (∃ keywords, value.get? "keywords" = some keywords ∧ (keywords.get? "type").isSome) ∨
      ∃ modes, value.get? "contains" = some (.array modes) ∧ modes ≠ [] := by
  refine (detect_eq_modern_iff.mp h).imp_right ?_
  rintro ⟨modes, hmodes, mode, hmode, -⟩
  exact ⟨modes, hmodes, List.ne_nil_of_mem hmode⟩

theorem hostModes?_ne_nil {items : List Json} {modes : List HostMode}
    (h : hostModes? items = some modes) (hne : items ≠ []) : modes ≠ [] := by
  cases items with
  | nil => exact absurd rfl hne
  | cons item items =>
      simp only [hostModes?, Option.bind_eq_bind, Option.bind_eq_some_iff] at h
      obtain ⟨mode, -, modes, -, h⟩ := h
      exact Option.some.inj h ▸ List.cons_ne_nil _ _

/-! ## Normal grammars -/

namespace Grammar

/-- What import makes of a host object: ordered groups, no void rule, and no shape that the grammar
itself does not tell. -/
structure IsNormal (grammar : Grammar) : Prop where
  categories : grammar.keywords.categories.Sublist Category.all
  isVoid : ∀ rule ∈ grammar.rules, rule.isVoid = false
  shape : grammar.shapeFromHost grammar.shape = grammar.shape

/-- The shape that comes back is the shape asked for, if that is the legacy one or if a rule or a
group of built-in words tells it. -/
theorem shapeFromHost_eq_self {grammar : Grammar} {shape : HostShape}
    (h : shape = .modern → grammar.rules ≠ [] ∨ .builtIn ∈ grammar.keywords.categories) :
    grammar.shapeFromHost shape = shape := by
  cases shape with
  | legacy => exact ite_self _
  | modern =>
      refine if_neg fun ⟨hrules, hgroups⟩ => ?_
      rcases h rfl with hne | hmem
      · exact hne hrules
      · obtain ⟨group, hgroup, hcategory⟩ := List.mem_map.mp hmem
        exact hgroups (List.any_eq_true.mpr ⟨group, hgroup, decide_eq_true hcategory⟩)

/-- If the keys of a host object tell the modern shape, then so does what it declares. -/
theorem detect_eq_modern {value : Json} {host : HostGrammar}
    (h : HostGrammar.ofJson? value = some host) (hmodern : HostShape.detect value = .modern) :
    host.modes ≠ [] ∨ .builtIn ∈ value.hostKeywords.keywordSet.categories := by
  rcases HostShape.evidence_of_detect hmodern with ⟨own, hown, htype⟩ | ⟨modes, hmodes, hne⟩
  · obtain ⟨members, rfl, hlookup⟩ := Json.get?_eq_some_iff.mp hown
    rw [Json.hostKeywords, hlookup, Option.getD_some]
    exact .inr ((own.isReadFrom_keywordSet.mem_categories_iff _).mpr ⟨"type", rfl, htype⟩)
  · obtain ⟨members, rfl, -⟩ := Json.get?_eq_some_iff.mp hmodes
    obtain ⟨-, -, hread⟩ := (HostGrammar.ofJson?_object_eq_some_iff hmodes).mp h
    exact .inl (hostModes?_ne_nil hread hne)

theorem isNormal_of_ofHost {value : Json} {grammar : Grammar} (h : ofHost value = .ok grammar) :
    grammar.IsNormal := by
  have hkeywords := keywords_of_ofHost h
  obtain ⟨host, lists, hhost, hlists, rfl⟩ := ofHost_eq_ok_iff.mp h
  obtain ⟨hne, hvoid⟩ := isVoid_of_mapM_rules hlists
  refine ⟨?_, hvoid, shapeFromHost_eq_self fun hmodern => ?_⟩
  · rw [hkeywords]
    exact value.hostKeywords.isReadFrom_keywordSet.order
  · rw [hkeywords]
    exact (detect_eq_modern hhost hmodern).imp_left hne

/-- A normal grammar comes back from every shape, in the shape asked for as far as it can tell. -/
theorem IsNormal.ofHost_toHost_eq {grammar : Grammar} (h : grammar.IsNormal) (shape : HostShape) :
    ofHost (grammar.toHost shape) = .ok { grammar with shape := grammar.shapeFromHost shape } := by
  obtain ⟨keywords, hhost, hset⟩ := ofJson?_toHost grammar shape
  have hvoid : grammar.rules.findIdx? Rule.isVoid = none :=
    List.findIdx?_eq_none_iff.mpr h.isVoid
  rw [KeywordSet.lastGroups_eq_self h.categories] at hset
  rw [ofHost, hhost]
  simp only [HostGrammar.toGrammar, rulesOfModes_map_hostMode, hvoid, hset, detect_toHost]
  rfl

theorem IsNormal.with_shape {grammar : Grammar} (h : grammar.IsNormal) (shape : HostShape) :
    IsNormal { grammar with shape := grammar.shapeFromHost shape } := by
  refine ⟨h.categories, h.isVoid, ?_⟩
  simp only [shapeFromHost]
  split <;> rfl

/-- The grammars that are met when a grammar is written to a host object of each of the shapes in
turn, and read back each time. -/
def relay : Grammar → List HostShape → Except ImportError (List Grammar)
  | _, [] => .ok []
  | grammar, shape :: shapes => do
    let grammar ← ofHost (grammar.toHost shape)
    return grammar :: (← grammar.relay shapes)

theorem IsNormal.relay_eq {grammar : Grammar} (h : grammar.IsNormal) (shapes : List HostShape) :
    grammar.relay shapes =
      .ok (shapes.map fun shape => { grammar with shape := grammar.shapeFromHost shape }) := by
  induction shapes generalizing grammar with
  | nil => rfl
  | cons shape shapes ih =>
      rw [relay, h.ofHost_toHost_eq shape]
      have hrest := ih (h.with_shape shape)
      simp only [bind, Except.bind, hrest]
      rfl

/-- A grammar that was read from a host object comes back from its own shape as it is. Handed on
through host objects of any shapes, it arrives every time with its name, its keywords and its rules,
and with the shape just asked for; only a grammar without rules and built-in words cannot show that
it was asked for the modern one. -/
theorem ofHost_stable {value : Json} {grammar : Grammar} (h : ofHost value = .ok grammar) :
    ofHost (grammar.toHost grammar.shape) = .ok grammar ∧
      ∀ shapes, grammar.relay shapes =
        .ok (shapes.map fun shape => { grammar with shape := grammar.shapeFromHost shape }) := by
  have hnormal := isNormal_of_ofHost h
  refine ⟨?_, hnormal.relay_eq⟩
  rw [hnormal.ofHost_toHost_eq, hnormal.shape]

/-- An object of both shapes: built-in words under two labels, a mode written as an array, and
variants that have variants themselves. -/
def mixedHost : Json :=
  .ofMembers [
    ("name", .string "mixed"),
    ("keywords", .ofMembers [("type", .string " num\tbool "), ("built_in", .ofStrings ["String"]),
      ("keyword", .ofStrings []), ("$pattern", .null)]),
    ("contains", .array [
      .array [.string "string", .string "'", .string "'", .null],
      .ofMembers [("className", .string "number"), ("begin", .null), ("variants", .array [
        .ofMembers [("match", .string "0x[0-9]+"), ("variants", .array [.ofMembers []])],
        .ofMembers [("begin", .string "[0-9]+")]])]])]

/-- The mixed object gives a modern grammar with one group of built-in words, which does not change
any more. -/
theorem ofHost_stable_mixedHost :
    let grammar : Grammar := ⟨"mixed", ⟨"\\w+", [⟨.keyword, []⟩,
      ⟨.builtIn, ["String", "num", "bool"]⟩]⟩, [.region ⟨.string, "'", "'", none⟩,
      .pattern ⟨.number, ["0x[0-9]+", "[0-9]+"]⟩], .modern⟩
    ofHost mixedHost = .ok grammar ∧ ofHost (grammar.toHost .modern) = .ok grammar ∧
      grammar.relay [.legacy, .modern] = .ok [{ grammar with shape := .legacy }, grammar] := by
  intro grammar
  have hread : ofHost mixedHost = .ok grammar := by rfl
  obtain ⟨hself, hrelay⟩ := ofHost_stable hread
  exact ⟨hread, hself, hrelay [.legacy, .modern]⟩

end Grammar

end CodeTint
