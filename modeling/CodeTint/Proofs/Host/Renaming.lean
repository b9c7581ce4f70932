import Mathlib.Logic.Relation
import CodeTint.Proofs.Host.NormalForm
import CodeTint.Proofs.Host.Variants
import CodeTint.Proofs.Host.WordLists
import CodeTint.Proofs.Json.Members

/-!
# Names of the two shapes

The two shapes differ in three names: that of the label of a mode, that of the pattern of a mode,
and the label of built-in words. A host object may mix them: where a name is exchanged for the name
of the other shape (`Json.RenamesHost`), the grammar keeps its name, its keywords and its rules, and
the names that are there in the end tell its shape (`Grammar.ofHost_of_renames`). A pattern that
stands alone may be renamed in a variant as well, unless the mode of the variant closes a region or
has a pattern to match at once.
-/

namespace CodeTint

/-! ## Modes under other names -/

/-- One name in a mode, or in one of its variants, is exchanged for that of the other shape: the
name of a label, `className` or `scope`, or that of a pattern which stands alone, `begin` or
`match`. `parent` is the mode that a variant belongs to, and `null` for a mode by itself. -/
inductive Json.RenamesMode : (parent mode renamed : Json) → Prop
  | label {parent : Json} {members renamed : List (String × Json)} {shape shape' : HostShape} :
      RenamesMember shape.classKey shape'.classKey members renamed →
      RenamesMode parent (.object members) (.object renamed)
  /-- Nothing but the pattern may tell what is declared: no variants, no end of a region, and no
  other pattern, be it given in the mode or in its parent. -/
  | pattern {parent : Json} {members renamed : List (String × Json)} {shape shape' : HostShape} :
      RenamesMember shape.patternKey shape'.patternKey members renamed →
      (Json.object members).itemsAt "variants" = [] →
      (Json.object members).textAt "end" = none →
      parent.textAt "end" = none → parent.textAt "match" = none →
      RenamesMode parent (.object members) (.object renamed)
  | variant {parent : Json} {members : List (String × Json)} {front back : List Json}
      {variant renamed : Json} :
      members.lookup "variants" = some (.array (front ++ variant :: back)) →
      RenamesMode (.object members) variant renamed →
      RenamesMode parent (.object members)
        (.object (putMember "variants" (.array (front ++ renamed :: back)) members))

namespace HostKeys

variable {keys keys' parent : HostKeys}

theorem declaration_of_closing_eq_none (h : keys.closing = none) :
    keys.declaration = match keys.pattern.or keys.opening with
      | some pattern => .ok (.pattern pattern)
      | none => .error .noPattern := by
  rw [declaration, h]
  cases keys.pattern <;> cases keys.opening <;> rfl

/-- It does not matter under which name a pattern stands that stands alone. -/
theorem declaration_inherit_eq (hclosing : keys.closing = none) (hclosing' : keys'.closing = none)
    (hpattern : keys'.pattern.or keys'.opening = keys.pattern.or keys.opening)
    (hparent : parent.closing = none) (hparent' : parent.pattern = none) :
    (keys'.inherit parent).declaration = (keys.inherit parent).declaration := by
  have hnone : ∀ own : HostKeys, own.closing = none → (own.inherit parent).closing = none := by
    intro own hown
    rw [inherit, hown, hparent]
    rfl
  have hor : ∀ own : HostKeys, (own.inherit parent).pattern.or (own.inherit parent).opening =
      (own.pattern.or own.opening).or parent.opening := by
    intro own
    rw [inherit, hparent', Option.or_none, Option.or_assoc]
  rw [declaration_of_closing_eq_none (hnone keys hclosing),
    declaration_of_closing_eq_none (hnone keys' hclosing'), hor, hor, hpattern]

theorem inherit_empty (keys : HostKeys) : keys.inherit empty = keys := by
  simp [inherit, empty]

end HostKeys

namespace HostMode

variable {keys keys' : HostKeys} {variants variants' : List HostMode}

theorem rules_congr (hlabel : keys'.label = keys.label)
    (hdeclarations : (mk keys' variants').declarations = (mk keys variants).declarations) :
    (mk keys' variants').rules = (mk keys variants).rules := by
  rw [rules, rules, hdeclarations, HostKeys.category, HostKeys.category, hlabel]

/-- A variant may be replaced by one that declares the same with the keys of the mode. -/
theorem rules_of_variant {front back : List HostMode} {variant renamed : HostMode}
    (h : (renamed.keys.inherit keys).declaration = (variant.keys.inherit keys).declaration) :
    (mk keys (front ++ renamed :: back)).rules = (mk keys (front ++ variant :: back)).rules := by
  refine rules_congr rfl ?_
  rw [declarations_of_ne_nil keys (List.append_ne_nil_of_right_ne_nil _ (List.cons_ne_nil _ _)),
    declarations_of_ne_nil keys (List.append_ne_nil_of_right_ne_nil _ (List.cons_ne_nil _ _)),
    List.mapM_append, List.mapM_append, List.mapM_cons, List.mapM_cons, h]

end HostMode

/-! ## Reading renamed modes -/

theorem HostShape.classKey_mem (shape : HostShape) : shape.classKey ∈ hostTextKeys := by
  cases shape <;> decide

theorem HostShape.patternKey_mem (shape : HostShape) : shape.patternKey ∈ hostTextKeys := by
  cases shape <;> decide

theorem ne_variants_of_mem_hostTextKeys {key : String} (h : key ∈ hostTextKeys) :
    key ≠ "variants" := by
  rintro rfl
  exact absurd h (by decide)

namespace RenamesMember

variable {key key' name : String} {members renamed : List (String × Json)}
  {shape shape' : HostShape} {mode : HostMode}

theorem textAt_eq (h : RenamesMember key key' members renamed) (name : String) :
    (Json.object renamed).textAt name =
      if name = key' then (Json.object members).textAt key
      else if name = key then none else (Json.object members).textAt name := by
  rw [Json.textAt, h.get?_eq]
  split
  · rfl
  · split
    · rfl
    · rfl

/-- A mode can still be read if a text comes under another name that texts have, unless the label
is then given under two names. -/
theorem isSome_ofJson? (h : RenamesMember key key' members renamed)
    (hkey : key ∈ hostTextKeys) (hkey' : key' ∈ hostTextKeys)
    (hlabel : ¬("className" ∈ renamed.map (·.1) ∧ "scope" ∈ renamed.map (·.1)))
    (hread : (HostMode.ofJson? (.object members)).isSome) :
    (HostMode.ofJson? (.object renamed)).isSome := by
  have hmembers := isSome_hostModeMembers?_iff.mp (HostMode.isSome_ofJson?_object_iff.mp hread).2
  refine HostMode.isSome_ofJson?_object_iff.mpr ⟨hlabel, isSome_hostModeMembers?_iff.mpr ?_⟩
  intro member hmember
  obtain ⟨-, hmem | ⟨hname, hmem⟩⟩ := h.mem_or hmember
  · exact hmembers member hmem
  · have htext := hmembers _ hmem
    rw [if_neg (ne_variants_of_mem_hostTextKeys hkey)] at htext
    rw [if_neg (hname ▸ ne_variants_of_mem_hostTextKeys hkey')]
    exact fun _ => htext hkey

/-- Only the keys of the mode can change, and not its variants. -/
theorem exists_ofJson?_eq (h : RenamesMember key key' members renamed)
    (hkey : key ∈ hostTextKeys) (hkey' : key' ∈ hostTextKeys)
    (hlabel : ¬("className" ∈ renamed.map (·.1) ∧ "scope" ∈ renamed.map (·.1)))
    (hread : HostMode.ofJson? (.object members) = some mode) :
    ∃ variants, mode = .mk (.ofObject (.object members)) variants ∧
      hostModes? ((Json.object members).itemsAt "variants") = some variants ∧
      HostMode.ofJson? (.object renamed) = some (.mk (.ofObject (.object renamed)) variants) := by
  obtain ⟨variants, rfl, hvariants⟩ := HostMode.ofJson?_object_eq_some hread
  obtain ⟨other, hother⟩ := Option.isSome_iff_exists.mp
    (h.isSome_ofJson? hkey hkey' hlabel (Option.isSome_iff_exists.mpr ⟨_, hread⟩))
  obtain ⟨variants', rfl, hvariants'⟩ := HostMode.ofJson?_object_eq_some hother
  rw [Json.itemsAt, h.get?_of_ne (ne_variants_of_mem_hostTextKeys hkey).symm
    (ne_variants_of_mem_hostTextKeys hkey').symm, ← Json.itemsAt, hvariants] at hvariants'
  obtain rfl := Option.some.inj hvariants'
  exact ⟨variants, rfl, hvariants, hother⟩

theorem ofObject_label (h : RenamesMember shape.classKey shape'.classKey members renamed) :
    HostKeys.ofObject (.object renamed) = HostKeys.ofObject (.object members) := by
  have hnone : (Json.object members).textAt shape'.classKey = none := by
    rw [Json.textAt, h.get?_key', Option.bind_none]
  have hne := h.ne
  simp only [HostKeys.ofObject, h.textAt_eq]
  cases shape <;> cases shape' <;> simp_all [HostShape.classKey]

/-- What is a pattern to match at once under one name may have been an opening under the other. -/
theorem ofObject_pattern (h : RenamesMember shape.patternKey shape'.patternKey members renamed) :
    let keys := HostKeys.ofObject (.object members)
    let keys' := HostKeys.ofObject (.object renamed)
    keys'.label = keys.label ∧ keys'.closing = keys.closing ∧
      keys'.pattern.or keys'.opening = keys.pattern.or keys.opening := by
  have hnone : (Json.object members).textAt shape'.patternKey = none := by
    rw [Json.textAt, h.get?_key', Option.bind_none]
  have hne := h.ne
  simp only [HostKeys.ofObject, h.textAt_eq]
  cases shape <;> cases shape' <;> simp_all [HostShape.patternKey]

theorem ofJson?_label (h : RenamesMember shape.classKey shape'.classKey members renamed)
    (hread : HostMode.ofJson? (.object members) = some mode) :
    HostMode.ofJson? (.object renamed) = some mode := by
  have hlabel : ¬("className" ∈ renamed.map (·.1) ∧ "scope" ∈ renamed.map (·.1)) := by
    intro ⟨hclass, hscope⟩
    cases shape with
    | legacy => exact h.key_notMem hclass
    | modern => exact h.key_notMem hscope
  obtain ⟨variants, rfl, -, hread'⟩ :=
    h.exists_ofJson?_eq shape.classKey_mem shape'.classKey_mem hlabel hread
  rw [hread', h.ofObject_label]

theorem exists_ofJson?_pattern
    (h : RenamesMember shape.patternKey shape'.patternKey members renamed)
    (hvariants : (Json.object members).itemsAt "variants" = [])
    (hread : HostMode.ofJson? (.object members) = some mode) :
    mode = .mk (.ofObject (.object members)) [] ∧
      HostMode.ofJson? (.object renamed) = some (.mk (.ofObject (.object renamed)) []) := by
  have hlabel : ¬("className" ∈ renamed.map (·.1) ∧ "scope" ∈ renamed.map (·.1)) := by
    intro ⟨hclass, hscope⟩
    refine (HostMode.isSome_ofJson?_object_iff.mp (Option.isSome_iff_exists.mpr ⟨_, hread⟩)).1
      ⟨h.mem_names hclass ?_, h.mem_names hscope ?_⟩
    all_goals cases shape' <;> decide
  obtain ⟨variants, rfl, hmodes, hread'⟩ :=
    h.exists_ofJson?_eq shape.patternKey_mem shape'.patternKey_mem hlabel hread
  rw [hvariants] at hmodes
  obtain rfl := Option.some.inj hmodes
  exact ⟨rfl, hread'⟩

end RenamesMember

namespace HostMode

variable {members : List (String × Json)} {others : List Json} {keys : HostKeys}
  {variants variants' : List HostMode}

theorem isSome_ofJson?_putMember_variants (hread : (ofJson? (.object members)).isSome)
    (hothers : ∀ item ∈ others, (ofJson? item).isSome) :
    (ofJson? (.object (putMember "variants" (.array others) members))).isSome := by
  obtain ⟨hlabel, hmembers⟩ := isSome_ofJson?_object_iff.mp hread
  have hnames : ∀ key, key ≠ "variants" →
      key ∈ (putMember "variants" (.array others) members).map (·.1) → key ∈ members.map (·.1) := by
    intro key hkey hmem
    obtain ⟨member, hmember, rfl⟩ := List.mem_map.mp hmem
    rcases mem_putMember hmember with rfl | hmember
    · exact absurd rfl hkey
    · exact List.mem_map_of_mem hmember
  refine isSome_ofJson?_object_iff.mpr ⟨?_, isSome_hostModeMembers?_iff.mpr ?_⟩
  · intro ⟨hclass, hscope⟩
    exact hlabel ⟨hnames _ (by decide) hclass, hnames _ (by decide) hscope⟩
  · intro member hmember
    rcases mem_putMember hmember with rfl | hmember
    · exact ⟨others, rfl, hothers⟩
    · exact isSome_hostModeMembers?_iff.mp hmembers member hmember

theorem ofJson?_putMember_variants (hread : ofJson? (.object members) = some (mk keys variants))
    (hothers : hostModes? others = some variants') :
    ofJson? (.object (putMember "variants" (.array others) members)) =
      some (mk keys variants') := by
  have hitems : (Json.object (putMember "variants" (.array others) members)).itemsAt "variants" =
      others := by
    rw [Json.itemsAt, Json.get?_putMember]
    rfl
  have hsome : ∀ item ∈ others, (ofJson? item).isSome := by
    rw [hostModes?_eq_mapM] at hothers
    exact isSome_mapM_iff.mp (Option.isSome_iff_exists.mpr ⟨_, hothers⟩)
  obtain ⟨mode, hmode⟩ := Option.isSome_iff_exists.mp
    (isSome_ofJson?_putMember_variants (Option.isSome_iff_exists.mpr ⟨_, hread⟩) hsome)
  obtain ⟨read, rfl, hread'⟩ := ofJson?_object_eq_some hmode
  obtain ⟨_, hkeys, -⟩ := ofJson?_object_eq_some hread
  obtain ⟨rfl, -⟩ := HostMode.mk.inj hkeys
  rw [hitems, hothers] at hread'
  obtain rfl := Option.some.inj hread'
  rw [hmode, HostKeys.ofObject, HostKeys.ofObject]
  simp only [Json.textAt, Json.get?_putMember]
  rfl

end HostMode

/-- A mode in which a name is exchanged declares the same as before: as a variant, with the keys of
the mode that it belongs to, and by itself. -/
theorem Json.RenamesMode.exists_ofJson?_eq {parent mode renamed : Json}
    (h : RenamesMode parent mode renamed) {own : HostMode}
    (hread : HostMode.ofJson? mode = some own) :
    ∃ own', HostMode.ofJson? renamed = some own' ∧
      (own'.keys.inherit (.ofObject parent)).declaration =
        (own.keys.inherit (.ofObject parent)).declaration ∧
      own'.rules = own.rules := by
  induction h generalizing own with
  | label hrenames => exact ⟨own, hrenames.ofJson?_label hread, rfl, rfl⟩
  | @pattern parent members renamed _ _ hrenames hvariants hclosing hparent hparent' =>
      obtain ⟨rfl, hread'⟩ := hrenames.exists_ofJson?_pattern hvariants hread
      obtain ⟨hlabel, hclosing', hpattern⟩ := hrenames.ofObject_pattern
      have hclosing' : (HostKeys.ofObject (.object renamed)).closing = none :=
        hclosing'.trans hclosing
      have hdeclaration : ∀ outer : HostKeys, outer.closing = none → outer.pattern = none → _ :=
        fun _ => HostKeys.declaration_inherit_eq hclosing hclosing' hpattern
      have hown := hdeclaration .empty rfl rfl
      rw [HostKeys.inherit_empty, HostKeys.inherit_empty] at hown
      refine ⟨_, hread', hdeclaration _ hparent hparent', HostMode.rules_congr hlabel ?_⟩
      rw [HostMode.declarations, HostMode.declarations, hown]
  | @variant parent members front back variant renamed hlookup _ ih =>
      obtain ⟨variants, rfl, hvariants⟩ := HostMode.ofJson?_object_eq_some hread
      have hitems : (Json.object members).itemsAt "variants" = front ++ variant :: back := by
        rw [itemsAt, get?, hlookup]
      rw [hitems, hostModes?_eq_some_iff, forall₂_append_cons_left_iff] at hvariants
      obtain ⟨frontModes, own, backModes, rfl, hfront, hown, hback⟩ := hvariants
      obtain ⟨own', hown', hdeclaration, -⟩ := ih hown
      have hothers : hostModes? (front ++ renamed :: back) =
          some (frontModes ++ own' :: backModes) :=
        hostModes?_eq_some_iff.mpr (forall₂_append_cons_left_iff.mpr
          ⟨frontModes, own', backModes, rfl, hfront, hown', hback⟩)
      exact ⟨_, HostMode.ofJson?_putMember_variants hread hothers, rfl,
        HostMode.rules_of_variant hdeclaration⟩

/-! ## Keywords under other names -/

namespace RenamesMember

variable {lists renamed : List (String × Json)} {shape shape' : HostShape}

theorem keywordSet_eq
    (h : RenamesMember (shape.label .builtIn) (shape'.label .builtIn) lists renamed) :
    (Json.object renamed).keywordSet = (Json.object lists).keywordSet := by
  have hnone := h.get?_key'
  have hne := h.ne
  have hpattern : (Json.object renamed).textAt keywordPatternKey =
      (Json.object lists).textAt keywordPatternKey := by
    rw [Json.textAt, h.get?_of_ne (shape.label_ne_keywordPatternKey _).symm
      (shape'.label_ne_keywordPatternKey _).symm, Json.textAt]
  have hgiven : ∀ category : Category,
      (category.labels.any fun label => ((Json.object renamed).get? label).isSome) =
        category.labels.any fun label => ((Json.object lists).get? label).isSome := by
    intro category
    simp only [h.get?_eq]
    cases category <;> cases shape <;> cases shape' <;>
      simp_all [HostShape.label, Category.labels, Category.name]
  have hwords : ∀ category : Category,
      category.labels.flatMap ((Json.object renamed).wordsAt ·) =
        category.labels.flatMap ((Json.object lists).wordsAt ·) := by
    intro category
    simp only [Json.wordsAt, h.get?_eq]
    cases category <;> cases shape <;> cases shape' <;>
      simp_all [HostShape.label, Category.labels, Category.name]
  rw [Json.keywordSet, Json.keywordSet, hpattern, labelGroups_eq hgiven hwords]

theorem map_toKeywordSet_eq {keywords : HostKeywords}
    (h : RenamesMember (shape.label .builtIn) (shape'.label .builtIn) lists renamed)
    (hread : HostKeywords.ofMembers? lists = some keywords) :
    (HostKeywords.ofMembers? renamed).map HostKeywords.toKeywordSet =
      (HostKeywords.ofMembers? lists).map HostKeywords.toKeywordSet := by
  have hmembers := HostKeywords.ofMembers?_isSome_iff.mp (Option.isSome_iff_exists.mpr ⟨_, hread⟩)
  have hsome : (HostKeywords.ofMembers? renamed).isSome := by
    refine HostKeywords.ofMembers?_isSome_iff.mpr fun member hmember => ?_
    obtain ⟨-, hmem | ⟨hname, hmem⟩⟩ := h.mem_or hmember
    · exact hmembers member hmem
    · have hlist := hmembers _ hmem
      rw [HostKeywords.IsMember, if_neg (shape.label_ne_keywordPatternKey _)] at hlist
      rw [HostKeywords.IsMember, hname, if_neg (shape'.label_ne_keywordPatternKey _)]
      exact hlist
  obtain ⟨keywords', hread'⟩ := Option.isSome_iff_exists.mp hsome
  rw [hread', hread, Option.map_some, Option.map_some,
    HostKeywords.toKeywordSet_eq_keywordSet hread', HostKeywords.toKeywordSet_eq_keywordSet hread,
    h.keywordSet_eq]

end RenamesMember

/-! ## Host objects under other names -/

/-- One name in a host object is exchanged for the name of another shape: in one of its modes, or
the label of the built-in words among its keywords. -/
inductive Json.RenamesHost : (value renamed : Json) → Prop
  | mode {members : List (String × Json)} {front back : List Json} {mode renamed : Json} :
      members.lookup "contains" = some (.array (front ++ mode :: back)) →
      RenamesMode .null mode renamed →
      RenamesHost (.object members)
        (.object (putMember "contains" (.array (front ++ renamed :: back)) members))
  | keywords {members lists renamed : List (String × Json)} {shape shape' : HostShape} :
      members.lookup "keywords" = some (.object lists) →
      RenamesMember (shape.label .builtIn) (shape'.label .builtIn) lists renamed →
      RenamesHost (.object members) (.object (putMember "keywords" (.object renamed) members))

namespace Grammar

variable {value renamed other : Json} {grammar : Grammar}

/-- One name that is exchanged makes no difference, but maybe for the shape. -/
theorem exists_ofHost_of_renamesHost (h : value.RenamesHost renamed)
    (hgrammar : ofHost value = .ok grammar) :
    ∃ shape, ofHost renamed = .ok { grammar with shape } := by
  cases h with
  | mode hcontains hmode =>
      obtain ⟨modes, lists, hmodes, hlists, hrules, hother⟩ :=
        exists_of_ofHost_eq_ok hcontains hgrammar
      -- The modes and their rules are split where the mode stands.
      rw [hostModes?_eq_some_iff, forall₂_append_cons_left_iff] at hmodes
      obtain ⟨frontModes, own, backModes, rfl, hfront, hown, hback⟩ := hmodes
      obtain ⟨own', hown', -, hownRules⟩ := hmode.exists_ofJson?_eq hown
      have hmodes' := hostModes?_eq_some_iff.mpr (forall₂_append_cons_left_iff.mpr
        ⟨frontModes, own', backModes, rfl, hfront, hown', hback⟩)
      have hlists' : (frontModes ++ own' :: backModes).mapM HostMode.rules = .ok lists := by
        rw [List.mapM_append, List.mapM_cons, hownRules, ← List.mapM_cons, ← List.mapM_append]
        exact hlists
      obtain ⟨shape, hshape⟩ := hother _ _ _ hmodes' hlists'
      rw [hrules] at hshape
      exact ⟨shape, hshape⟩
  | @keywords members lists renamed _ _ hkeywords hrenames =>
      obtain ⟨host, _, hhost, -, -⟩ := ofHost_eq_ok_iff.mp hgrammar
      have hread := HostGrammar.ofJson?_hostKeywords hhost
      rw [Json.hostKeywords, hkeywords] at hread
      obtain ⟨keywords, hread, -⟩ := Option.map_eq_some_iff.mp hread
      rw [ofHost_putMember_keywords hkeywords (hrenames.map_toKeywordSet_eq hread), hgrammar]
      exact ⟨_, rfl⟩

/-- Names that are exchanged one after the other make no difference, but maybe for the shape. -/
theorem exists_ofHost_of_renames (h : Relation.ReflTransGen Json.RenamesHost value other)
    (hgrammar : ofHost value = .ok grammar) :
    ∃ shape, ofHost other = .ok { grammar with shape } := by
  induction h with
  | refl => exact ⟨grammar.shape, hgrammar⟩
  | tail _ hstep ih =>
      obtain ⟨_, hread⟩ := ih
      obtain ⟨shape, hread'⟩ := exists_ofHost_of_renamesHost hstep hread
      exact ⟨shape, hread'⟩

/-- Names of the two shapes may be mixed. Whichever of them are exchanged in a host object, the
grammar has the same name, keywords and rules, and it has the modern shape if and only if then a
list of words stands under `type` or a mode has a label under `scope` or a pattern under `match`. -/
theorem ofHost_of_renames (hgrammar : ofHost value = .ok grammar)
    (hrenames : Relation.ReflTransGen Json.RenamesHost value other) :
    ∃ shape, ofHost other = .ok { grammar with shape } ∧
      (shape = .modern ↔
        (∃ keywords, other.get? "keywords" = some keywords ∧ (keywords.get? "type").isSome) ∨
          ∃ modes, other.get? "contains" = some (.array modes) ∧
            ∃ mode ∈ modes, (mode.get? "scope").isSome ∨ (mode.get? "match").isSome) := by
  obtain ⟨shape, hread⟩ := exists_ofHost_of_renames hrenames hgrammar
  refine ⟨shape, hread, ?_⟩
  rw [← HostShape.detect_eq_modern_iff, ← shape_of_ofHost hread]

/-- Names are exchanged in both directions: a pattern, a label, a pattern of a variant, and the
label of the built-in words. -/
theorem ofHost_of_renames_both_ways :
    let region := Json.array [.object [("begin", .string "/")]]
    let number := Json.object [("begin", .string "[0-9]+"), ("className", .string "number")]
    let number' := Json.object [("className", .string "number"), ("match", .string "[0-9]+")]
    let string := Json.object
      [("className", .string "string"), ("end", .string "/"), ("variants", region)]
    let string' := Json.object
      [("end", .string "/"), ("scope", .string "string"), ("variants", region)]
    let word := Json.object [("match", .string "if")]
    let word' := Json.object [("begin", .string "if")]
    let keyword := [("scope", Json.string "keyword"), ("variants", .array [word])]
    let keyword' := [("scope", Json.string "keyword"), ("variants", .array [word'])]
    let lists := [("$pattern", Json.string "[a-z]+"), ("type", .string "int bool")]
    let lists' := [("$pattern", Json.string "[a-z]+"), ("built_in", .string "int bool")]
    let value := Json.object [("contains", .array [number, string, .object keyword]),
      ("keywords", .object lists), ("name", .string "A")]
    let other := Json.object [("contains", .array [number', string', .object keyword']),
      ("keywords", .object lists'), ("name", .string "A")]
    ∃ grammar shape, ofHost value = .ok grammar ∧
      Relation.ReflTransGen Json.RenamesHost value other ∧
      ofHost other = .ok { grammar with shape } ∧ shape = .modern := by
  intro region number number' string string' word word' keyword keyword' lists lists' value other
  have hnumber : Json.RenamesMode .null number number' := by
    refine @Json.RenamesMode.pattern _ _ _ .legacy .modern ?_ rfl rfl rfl rfl
    exact .rename rfl rfl
  have hstring : Json.RenamesMode .null string string' := by
    refine @Json.RenamesMode.label _ _ _ .legacy .modern ?_
    exact .rename rfl rfl
  have hword : Json.RenamesMode (.object keyword) word word' := by
    refine @Json.RenamesMode.pattern _ _ _ .modern .legacy ?_ rfl rfl rfl rfl
    exact .rename rfl rfl
  have hkeyword : Json.RenamesMode .null (.object keyword) (.object keyword') :=
    @Json.RenamesMode.variant _ _ [] [] _ _ rfl hword
  have hlists : RenamesMember (HostShape.modern.label .builtIn) (HostShape.legacy.label .builtIn)
      lists lists' := .rename rfl rfl
  have hrenames : Relation.ReflTransGen Json.RenamesHost value other := by
    refine .head (@Json.RenamesHost.mode _ [] [string, .object keyword] _ _ rfl hnumber) ?_
    refine .head (@Json.RenamesHost.mode _ [number'] [.object keyword] _ _ rfl hstring) ?_
    refine .head (@Json.RenamesHost.mode _ [number', string'] [] _ _ rfl hkeyword) ?_
    exact .single (.keywords rfl hlists)
  obtain ⟨shape, hread, hshape⟩ := ofHost_of_renames (rfl : ofHost value = .ok _) hrenames
  refine ⟨_, shape, rfl, hrenames, hread, hshape.mpr (.inr ?_)⟩
  exact ⟨_, rfl, number', List.mem_cons_self, .inr rfl⟩

end Grammar

end CodeTint
