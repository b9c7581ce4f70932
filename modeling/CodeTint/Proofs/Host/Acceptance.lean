import CodeTint.Proofs.Host.Reading

/-!
# Which host objects are accepted

The host objects that give a grammar are described by what has to stand where (`IsHostObject`), and
by what each mode has to declare (`Json.DeclaresTokens`). A value that is not of the first kind is
no host object at all; if only a mode falls short, the first one that does is reported
(`Grammar.ofHost_accepts_iff`).
-/

namespace CodeTint

/-! ## Host objects -/

namespace Json

def IsOptionalText (value : Json) : Prop :=
  value = .null ∨ ∃ text, value = .string text

/-- Words, as one text or as an array of texts. -/
def IsWordList (value : Json) : Prop :=
  (∃ text, value = .string text) ∨ ∃ words : List String, value = .array (words.map .string)

/-- Lists of words under any labels, and a pattern that may be missing; or `null`. -/
def IsKeywords (value : Json) : Prop :=
  value = .null ∨ ∃ members, value = .object members ∧ ∀ name member, (name, member) ∈ members →
    if name = "$pattern" then member.IsOptionalText else member.IsWordList

/-- An object, as are all values that it lists as its variants, at every depth. -/
inductive IsObjectMode : Json → Prop
  | object {members : List (String × Json)}
      (variants : ∀ items, ("variants", .array items) ∈ members → ∀ item ∈ items,
        item.IsObjectMode) :
      IsObjectMode (.object members)

theorem IsObjectMode.exists_object {value : Json} (h : value.IsObjectMode) :
    ∃ members, value = .object members := by
  cases h
  exact ⟨_, rfl⟩

theorem IsObjectMode.of_mem_itemsAt {value item : Json} (h : value.IsObjectMode)
    (hitem : item ∈ value.itemsAt "variants") : item.IsObjectMode := by
  cases h with
  | @object members variants =>
      rw [itemsAt] at hitem
      split at hitem
      next items hget => exact variants items (mem_of_lookup hget) item hitem
      next => exact absurd hitem List.not_mem_nil

/-- An object whose keys hold texts, of which the label is given under one name only; its variants
are such objects as well, at every depth. -/
inductive IsMode : Json → Prop
  | object {members : List (String × Json)}
      (label : ¬("className" ∈ members.map (·.1) ∧ "scope" ∈ members.map (·.1)))
      (texts : ∀ name value, (name, value) ∈ members →
        name ∈ ["className", "scope", "begin", "end", "illegal", "match"] → value.IsOptionalText)
      (array : ∀ value, ("variants", value) ∈ members → ∃ items, value = .array items)
      (variants : ∀ items, ("variants", .array items) ∈ members → ∀ item ∈ items, item.IsMode) :
      IsMode (.object members)

/-- The mode has a category, and a pattern to begin with: of its own if it has no variants, and else
each variant has one, or takes one from the mode. -/
structure DeclaresTokens (mode : Json) : Prop where
  category : ∃ label ∈ ["string", "number", "keyword", "built_in", "type"],
    (mode.textAt "className").or (mode.textAt "scope") = some label
  own : mode.itemsAt "variants" = [] → ∃ key ∈ ["match", "begin"], (mode.textAt key).isSome
  variants : ∀ variant ∈ mode.itemsAt "variants", ∃ key ∈ ["match", "begin"],
    ((variant.textAt key).or (mode.textAt key)).isSome

end Json

/-- What stands under the names that a host engine knows is what it expects there. -/
structure IsHostObject (value : Json) : Prop where
  name : ∃ name, value.get? "name" = some (.string name)
  keywords : ∀ keywords, value.get? "keywords" = some keywords → keywords.IsKeywords
  contains : ∀ modes, value.get? "contains" = some modes →
    ∃ items, modes = .array items ∧ ∀ mode ∈ items, mode.IsMode

/-! ## Reading -/

theorem isSome_optionalText?_iff {value : Json} :
    (optionalText? value).isSome ↔ value.IsOptionalText := by
  cases value <;> simp [optionalText?, Json.IsOptionalText]

theorem mapM_text?_eq_some_iff {items : List Json} {texts : List String} :
    items.mapM text? = some texts ↔ items = texts.map .string := by
  constructor
  · intro h
    rw [mapM_eq_some_iff_forall₂] at h
    induction h with
    | nil => rfl
    | @cons item text items texts hitem _ ih =>
        cases item <;> cases hitem
        rw [List.map_cons, ih]
  · rintro rfl
    exact mapM_text?_map_string texts

theorem WordList.isSome_ofJson?_iff {value : Json} :
    (WordList.ofJson? value).isSome ↔ value.IsWordList := by
  cases value with
  | array items =>
      simp [WordList.ofJson?, Json.IsWordList, Option.isSome_iff_exists, mapM_text?_eq_some_iff]
  | _ => simp [WordList.ofJson?, Json.IsWordList]

theorem HostKeywords.isMember_iff {name : String} {value : Json} :
    IsMember name value ↔ if name = "$pattern" then value.IsOptionalText else value.IsWordList := by
  rw [IsMember, keywordPatternKey]
  split
  · exact isSome_optionalText?_iff
  · exact WordList.isSome_ofJson?_iff

theorem HostKeywords.isSome_ofJson?_iff {value : Json} :
    (HostKeywords.ofJson? value).isSome ↔ value.IsKeywords := by
  cases value with
  | object members =>
      rw [HostKeywords.ofJson?, Option.isSome_map, HostKeywords.ofMembers?_isSome_iff]
      simp [isMember_iff, Json.IsKeywords]
  | _ => simp [HostKeywords.ofJson?, Json.IsKeywords]

namespace HostMode

theorem ofJson?_object_eq_some {members : List (String × Json)} {mode : HostMode}
    (h : ofJson? (.object members) = some mode) :
    ∃ variants, mode = .mk (.ofObject (.object members)) variants ∧
      hostModes? ((Json.object members).itemsAt "variants") = some variants := by
  rw [ofJson?] at h
  split at h
  · cases h
  · rename_i hlabel
    obtain ⟨⟨keys, variants⟩, hread, rfl⟩ := Option.map_eq_some_iff.mp h
    obtain rfl := keys_hostModeMembers? hread (eq_false_of_ne_true hlabel)
    exact ⟨variants, rfl, hostModes?_itemsAt hread⟩

theorem isSome_ofJson?_object_iff {members : List (String × Json)} :
    (ofJson? (.object members)).isSome ↔
      ¬("className" ∈ members.map (·.1) ∧ "scope" ∈ members.map (·.1)) ∧
        (hostModeMembers? members).isSome := by
  have hany : ∀ key, members.any (·.1 = key) = true ↔ key ∈ members.map (·.1) := by
    simp [List.any_eq_true]
  rw [ofJson?, ← hany, ← hany, ← Bool.and_eq_true]
  split
  next hlabel => exact ⟨nofun, fun h => absurd hlabel h.1⟩
  next hlabel =>
    rw [Option.isSome_map]
    exact ⟨fun h => ⟨hlabel, h⟩, And.right⟩

/-- A mode that is written as an object, with all its variants, can be read if it is of the right
kind. -/
theorem isSome_ofJson?_iff {value : Json} (h : value.IsObjectMode) :
    (ofJson? value).isSome ↔ value.IsMode := by
  induction h with
  | @object members _ ih =>
      rw [isSome_ofJson?_object_iff, isSome_hostModeMembers?_iff]
      constructor
      · rintro ⟨hlabel, hmembers⟩
        have htexts : ∀ name value, (name, value) ∈ members → name ∈ hostTextKeys →
            value.IsOptionalText := by
          intro name value hmem hname
          have hne : name ≠ "variants" := by
            rintro rfl
            revert hname
            decide
          have hmember := hmembers _ hmem
          rw [if_neg hne] at hmember
          exact isSome_optionalText?_iff.mp (hmember hname)
        have hvariants : ∀ value, ("variants", value) ∈ members →
            ∃ items, value = .array items ∧ ∀ item ∈ items, (ofJson? item).isSome :=
          fun value hmem => hmembers _ hmem
        refine .object hlabel htexts (fun value hmem => ?_) fun items hmem item hitem => ?_
        · obtain ⟨items, rfl, -⟩ := hvariants value hmem
          exact ⟨items, rfl⟩
        · obtain ⟨_, ⟨⟩, hitems⟩ := hvariants _ hmem
          exact (ih items hmem item hitem).mp (hitems item hitem)
      · rintro ⟨hlabel, htexts, harray, hvariants⟩
        refine ⟨hlabel, fun ⟨name, value⟩ hmem => ?_⟩
        split
        next hname =>
          obtain rfl : name = "variants" := hname
          obtain ⟨items, rfl⟩ := harray value hmem
          exact ⟨items, rfl, fun item hitem =>
            (ih items hmem item hitem).mpr (hvariants items hmem item hitem)⟩
        next =>
          exact fun hname => isSome_optionalText?_iff.mpr (htexts name value hmem hname)

end HostMode

/-! ## What modes declare -/

theorem Category.isSome_ofLabel?_iff {label : String} :
    (ofLabel? label).isSome ↔ label ∈ ["string", "number", "keyword", "built_in", "type"] := by
  unfold ofLabel?
  split <;> simp_all

namespace HostKeys

variable {keys : HostKeys}

theorem exists_category_eq_ok_iff :
    (∃ category, keys.category = .ok category) ↔
      ∃ label ∈ ["string", "number", "keyword", "built_in", "type"], keys.label = some label := by
  simp only [← Category.isSome_ofLabel?_iff, category]
  cases keys.label with
  | none => simp
  | some label => cases hlabel : Category.ofLabel? label <;> simp [hlabel]

theorem exists_declaration_eq_ok_iff :
    (∃ declaration, keys.declaration = .ok declaration) ↔
      keys.pattern.isSome ∨ keys.opening.isSome := by
  obtain ⟨label, opening, closing, illegal, pattern⟩ := keys
  cases pattern <;> cases opening <;> cases closing <;> simp [declaration]

end HostKeys

namespace HostMode

theorem exists_declarations_eq_ok_iff {keys : HostKeys} {variants : List HostMode} :
    (∃ declarations, (mk keys variants).declarations = .ok declarations) ↔
      (variants = [] → keys.pattern.isSome ∨ keys.opening.isSome) ∧
        ∀ own inner, mk own inner ∈ variants →
          (own.pattern.or keys.pattern).isSome ∨ (own.opening.or keys.opening).isSome := by
  cases variants with
  | nil =>
      rw [declarations, ← HostKeys.exists_declaration_eq_ok_iff]
      cases keys.declaration <;> simp [Except.map]
  | cons variant variants =>
      rw [declarations, exists_mapM_eq_ok_iff]
      · constructor
        · intro h
          refine ⟨nofun, fun own inner hmem => ?_⟩
          exact HostKeys.exists_declaration_eq_ok_iff.mp (h (mk own inner) hmem)
        · rintro ⟨-, h⟩ ⟨own, inner⟩ hmem
          exact HostKeys.exists_declaration_eq_ok_iff.mpr (h own inner hmem)
      · exact nofun

/-- Rules are made where there is a category and there are declarations. -/
theorem exists_rules_eq_ok_iff {keys : HostKeys} {variants : List HostMode} :
    (∃ rules, (mk keys variants).rules = .ok rules) ↔
      (∃ category, keys.category = .ok category) ∧
        ∃ declarations, (mk keys variants).declarations = .ok declarations := by
  simp only [rules_eq_ok_iff]
  constructor
  · rintro ⟨_, category, declarations, hcategory, hdeclarations, -⟩
    exact ⟨⟨category, hcategory⟩, declarations, hdeclarations⟩
  · rintro ⟨⟨category, hcategory⟩, declarations, hdeclarations⟩
    exact ⟨_, category, declarations, hcategory, hdeclarations, rfl⟩

theorem exists_mode_of_ofJson? {items : List Json} {modes : List HostMode}
    (hobjects : ∀ item ∈ items, ∃ members, item = .object members)
    (hread : hostModes? items = some modes) {p : HostKeys → Prop} :
    (∀ keys inner, mk keys inner ∈ modes → p keys) ↔ ∀ item ∈ items, p (.ofObject item) := by
  rw [hostModes?_eq_some_iff] at hread
  induction hread with
  | nil => simp
  | @cons item mode items modes hitem _ ih =>
      obtain ⟨⟨members, rfl⟩, hitems⟩ := List.forall_mem_cons.mp hobjects
      obtain ⟨variants, rfl, -⟩ := ofJson?_object_eq_some hitem
      rw [List.forall_mem_cons, ← ih hitems]
      constructor
      · exact fun h => ⟨h _ variants List.mem_cons_self,
          fun keys inner hmem => h keys inner (List.mem_cons_of_mem _ hmem)⟩
      · rintro ⟨hfirst, hothers⟩ keys inner hmem
        rcases List.mem_cons.mp hmem with heq | hmem
        · cases heq
          exact hfirst
        · exact hothers keys inner hmem

/-- A mode that can be read gives rules if it declares tokens. -/
theorem exists_rules_iff_declaresTokens {value : Json} {mode : HostMode} (h : value.IsObjectMode)
    (hread : ofJson? value = some mode) :
    (∃ rules, mode.rules = .ok rules) ↔ value.DeclaresTokens := by
  obtain ⟨members, rfl⟩ := h.exists_object
  obtain ⟨variants, rfl, hvariants⟩ := ofJson?_object_eq_some hread
  have hnil : variants = [] ↔ (Json.object members).itemsAt "variants" = [] := by
    rw [hostModes?_eq_some_iff] at hvariants
    rw [← List.length_eq_zero_iff, ← hvariants.length_eq, List.length_eq_zero_iff]
  have hobjects : ∀ item ∈ (Json.object members).itemsAt "variants",
      ∃ members, item = .object members :=
    fun item hitem => (h.of_mem_itemsAt hitem).exists_object
  have hkeys : ∀ p : String → Prop,
      (∃ key ∈ ["match", "begin"], p key) ↔ p "match" ∨ p "begin" := by
    simp
  rw [exists_rules_eq_ok_iff, HostKeys.exists_category_eq_ok_iff, exists_declarations_eq_ok_iff,
    exists_mode_of_ofJson? hobjects hvariants (p := fun own =>
      (own.pattern.or (HostKeys.ofObject (.object members)).pattern).isSome ∨
        (own.opening.or (HostKeys.ofObject (.object members)).opening).isSome), hnil]
  constructor
  · rintro ⟨hcategory, hown, hvariants⟩
    exact ⟨hcategory, fun hnil => (hkeys _).mpr (hown hnil),
      fun variant hmem => (hkeys _).mpr (hvariants variant hmem)⟩
  · rintro ⟨hcategory, hown, hvariants⟩
    exact ⟨hcategory, fun hnil => (hkeys _).mp (hown hnil),
      fun variant hmem => (hkeys _).mp (hvariants variant hmem)⟩

end HostMode

/-! ## Import -/

theorem exists_rulesOfModes_eq_ok_iff (name : String) (index : Nat) {modes : List HostMode} :
    (∃ rules, rulesOfModes name index modes = .ok rules) ↔
      ∀ mode ∈ modes, ∃ rules, mode.rules = .ok rules := by
  simp only [rulesOfModes_eq_ok_iff, ← exists_mapM_eq_ok_iff]
  exact ⟨fun ⟨_, lists, hlists, _⟩ => ⟨lists, hlists⟩,
    fun ⟨lists, hlists⟩ => ⟨_, lists, hlists, rfl⟩⟩

/-- The first mode without rules is reported with its place. -/
theorem rulesOfModes_append_cons_eq_error {name : String} {index : Nat} {front back : List HostMode}
    {mode : HostMode} {cause : ModeError}
    (hfront : ∀ mode ∈ front, ∃ rules, mode.rules = .ok rules) (hmode : mode.rules = .error cause) :
    rulesOfModes name index (front ++ mode :: back) =
      .error (.badMode (index + front.length) name cause) := by
  induction front generalizing index with
  | nil => rw [List.nil_append, rulesOfModes, hmode]; rfl
  | cons other front ih =>
      obtain ⟨⟨rules, hrules⟩, hfront⟩ := List.forall_mem_cons.mp hfront
      rw [List.cons_append, rulesOfModes, hrules]
      simp only [ih hfront, Except.map, List.length_cons, Nat.add_assoc, Nat.add_comm 1]

theorem text?_eq_some_iff {value : Json} {text : String} :
    text? value = some text ↔ value = .string text := by
  cases value <;> simp [text?]

namespace HostGrammar

variable {members : List (String × Json)}

theorem exists_ofJson?_eq_some_iff {name : String} {modes : List HostMode} :
    (∃ keywords, ofJson? (.object members) = some ⟨name, keywords, modes⟩) ↔
      (Json.object members).get? "name" = some (.string name) ∧
      (∀ keywords, (Json.object members).get? "keywords" = some keywords → keywords.IsKeywords) ∧
      (∀ modes, (Json.object members).get? "contains" = some modes →
        ∃ items, modes = .array items) ∧
      hostModes? ((Json.object members).itemsAt "contains") = some modes := by
  have hname : text? (((Json.object members).get? "name").getD .null) = some name ↔
      (Json.object members).get? "name" = some (.string name) := by
    rw [text?_eq_some_iff]
    cases (Json.object members).get? "name" <;> simp
  have hkeywords :
      (∃ keywords, HostKeywords.ofJson? (((Json.object members).get? "keywords").getD .null) =
          some keywords) ↔
        ∀ keywords, (Json.object members).get? "keywords" = some keywords →
          keywords.IsKeywords := by
    simp only [← HostKeywords.isSome_ofJson?_iff, Option.isSome_iff_exists]
    cases (Json.object members).get? "keywords" <;> simp [HostKeywords.ofJson?]
  rw [← hname, ← hkeywords, ofJson?_object, Json.itemsAt]
  simp only [Option.bind_eq_bind, Option.bind_eq_some_iff]
  cases (Json.object members).get? "contains" with
  | none => simp [hostModes?]
  | some value =>
      cases value with
      | array items => cases hitems : hostModes? items <;> simp [hitems]
      | _ => simp

/-- What can be read are the host objects, if all modes are written as objects. -/
theorem exists_ofJson?_eq_some_iff_isHostObject
    (hmodes : ∀ mode ∈ (Json.object members).itemsAt "contains", mode.IsObjectMode) :
    (∃ host, ofJson? (.object members) = some host) ↔ IsHostObject (.object members) := by
  have hread : (∃ modes, hostModes? ((Json.object members).itemsAt "contains") = some modes) ↔
      ∀ mode ∈ (Json.object members).itemsAt "contains", mode.IsMode := by
    rw [← Option.isSome_iff_exists, hostModes?_eq_mapM, isSome_mapM_iff]
    exact forall₂_congr fun mode hmem => HostMode.isSome_ofJson?_iff (hmodes mode hmem)
  have hitems : ∀ modes, (Json.object members).get? "contains" = some (.array modes) →
      (Json.object members).itemsAt "contains" = modes := by
    intro modes hget
    rw [Json.itemsAt, hget]
  constructor
  · rintro ⟨⟨name, keywords, modes⟩, hhost⟩
    obtain ⟨hname, hkeywords, harray, hmodes?⟩ := exists_ofJson?_eq_some_iff.mp ⟨keywords, hhost⟩
    refine ⟨⟨name, hname⟩, hkeywords, fun modes' hget => ?_⟩
    obtain ⟨items, rfl⟩ := harray modes' hget
    exact ⟨items, rfl, hitems items hget ▸ hread.mp ⟨modes, hmodes?⟩⟩
  · rintro ⟨⟨name, hname⟩, hkeywords, hcontains⟩
    have hall : ∀ mode ∈ (Json.object members).itemsAt "contains", mode.IsMode := by
      rw [Json.itemsAt]
      split
      next items hget =>
        obtain ⟨_, ⟨⟩, hall⟩ := hcontains _ hget
        exact hall
      next => exact fun _ hmem => absurd hmem List.not_mem_nil
    obtain ⟨modes, hmodes?⟩ := hread.mpr hall
    obtain ⟨keywords, hhost⟩ := exists_ofJson?_eq_some_iff.mpr ⟨hname, hkeywords,
      fun modes hget => (hcontains modes hget).imp fun _ => And.left, hmodes?⟩
    exact ⟨_, hhost⟩

end HostGrammar

theorem HostMode.forall_exists_rules_iff {items : List Json} {modes : List HostMode}
    (hobjects : ∀ item ∈ items, item.IsObjectMode) (hread : hostModes? items = some modes) :
    (∀ mode ∈ modes, ∃ rules, mode.rules = .ok rules) ↔ ∀ item ∈ items, item.DeclaresTokens := by
  rw [hostModes?_eq_some_iff] at hread
  induction hread with
  | nil => simp
  | @cons item mode items modes hitem _ ih =>
      obtain ⟨hobject, hobjects⟩ := List.forall_mem_cons.mp hobjects
      rw [List.forall_mem_cons, List.forall_mem_cons, ih hobjects,
        exists_rules_iff_declaresTokens hobject hitem]

namespace Grammar

theorem exists_ofHost_eq_ok_iff {value : Json} {host : HostGrammar}
    (hread : HostGrammar.ofJson? value = some host) :
    (∃ grammar, ofHost value = .ok grammar) ↔
      ∀ mode ∈ host.modes, ∃ rules, mode.rules = .ok rules := by
  rw [← exists_rulesOfModes_eq_ok_iff host.name 0, ofHost, hread]
  simp only [HostGrammar.toGrammar]
  cases rulesOfModes host.name 0 host.modes <;> simp [bind, Except.bind, pure, Except.pure]

/-- An object with modes that are objects themselves, at every depth, gives a grammar if it is a
host object and each of its modes declares tokens. If it is no host object, that is the error; else
the error names the place of the first mode that does not declare tokens. -/
theorem ofHost_accepts_iff {value : Json} (hobject : ∃ members, value = .object members)
    (hmodes : ∀ mode ∈ value.itemsAt "contains", mode.IsObjectMode) :
    ((∃ grammar, ofHost value = .ok grammar) ↔
      IsHostObject value ∧ ∀ mode ∈ value.itemsAt "contains", mode.DeclaresTokens) ∧
    (¬IsHostObject value → ofHost value = .error .notHostObject) ∧
    ∀ front mode back, IsHostObject value → value.itemsAt "contains" = front ++ mode :: back →
      (∀ other ∈ front, other.DeclaresTokens) → ¬mode.DeclaresTokens →
        ∃ name cause, value.get? "name" = some (.string name) ∧
          ofHost value = .error (.badMode front.length name cause) := by
  obtain ⟨members, rfl⟩ := hobject
  have hhost := HostGrammar.exists_ofJson?_eq_some_iff_isHostObject hmodes
  have hno : ¬IsHostObject (.object members) →
      ofHost (.object members) = .error .notHostObject := by
    intro hnot
    have hnone := Option.eq_none_iff_forall_ne_some.mpr fun host hread =>
      hnot (hhost.mp ⟨host, hread⟩)
    rw [ofHost, hnone]
  refine ⟨?_, hno, ?_⟩
  · by_cases his : IsHostObject (.object members)
    · obtain ⟨⟨name, keywords, modes⟩, hread⟩ := hhost.mpr his
      obtain ⟨-, -, -, hitems⟩ := HostGrammar.exists_ofJson?_eq_some_iff.mp ⟨keywords, hread⟩
      rw [exists_ofHost_eq_ok_iff hread, HostMode.forall_exists_rules_iff hmodes hitems]
      exact ⟨fun h => ⟨his, h⟩, And.right⟩
    · rw [hno his]
      exact ⟨fun ⟨_, h⟩ => (nomatch h), fun h => absurd h.1 his⟩
  · intro front mode back his hsplit hfront hmode
    obtain ⟨⟨name, keywords, modes⟩, hread⟩ := hhost.mpr his
    obtain ⟨hname, -, -, hitems⟩ := HostGrammar.exists_ofJson?_eq_some_iff.mp ⟨keywords, hread⟩
    rw [hsplit] at hitems hmodes
    obtain ⟨hobjects, hobject, -⟩ := List.forall_mem_append.mp hmodes |>.imp_right
      List.forall_mem_cons.mp
    rw [hostModes?_eq_some_iff, forall₂_append_cons_left_iff] at hitems
    obtain ⟨frontModes, own, backModes, rfl, hfrontModes, hown, -⟩ := hitems
    have hlength : frontModes.length = front.length := hfrontModes.length_eq.symm
    rw [← hostModes?_eq_some_iff] at hfrontModes
    have hrules := (HostMode.forall_exists_rules_iff hobjects hfrontModes).mpr hfront
    have hnone := mt (HostMode.exists_rules_iff_declaresTokens hobject hown).mp hmode
    cases hcause : own.rules with
    | ok rules => exact absurd ⟨rules, hcause⟩ hnone
    | error cause =>
        refine ⟨name, cause, hname, ?_⟩
        rw [ofHost, hread]
        simp only [HostGrammar.toGrammar, rulesOfModes_append_cons_eq_error hrules hcause,
          hlength, Nat.zero_add]
        rfl

/-- A mode that declares tokens in a variant, and one that does not. -/
theorem ofHost_accepts_first_of_two :
    let variant := Json.object [("begin", .string "\"")]
    let first := Json.object [("className", .string "string"), ("variants", .array [variant])]
    let second := Json.object [("begin", .string "#"), ("scope", .string "comment")]
    let value := Json.object [("contains", .array [first, second]), ("name", .string "A")]
    (∃ members, value = .object members) ∧
      (∀ mode ∈ value.itemsAt "contains", mode.IsObjectMode) ∧
      ∃ name cause, value.get? "name" = some (.string name) ∧
        ofHost value = .error (.badMode 1 name cause) := by
  intro variant first second value
  have hvariant : variant.IsObjectMode := .object (by simp)
  have hfirst : first.IsObjectMode := .object (by simpa using hvariant)
  have hsecond : second.IsObjectMode := .object (by simp)
  have hmodes : ∀ mode ∈ value.itemsAt "contains", mode.IsObjectMode := by
    simpa [value, Json.itemsAt, Json.get?] using ⟨hfirst, hsecond⟩
  have his : IsHostObject value :=
    (HostGrammar.exists_ofJson?_eq_some_iff_isHostObject hmodes).mp ⟨_, rfl⟩
  have hdeclares : first.DeclaresTokens :=
    (HostMode.exists_rules_iff_declaresTokens hfirst rfl).mp ⟨_, rfl⟩
  have hnot : ¬second.DeclaresTokens := by
    intro h
    obtain ⟨rules, hrules⟩ := (HostMode.exists_rules_iff_declaresTokens hsecond rfl).mpr h
    cases hrules
  exact ⟨⟨_, rfl⟩, hmodes, (ofHost_accepts_iff ⟨_, rfl⟩ hmodes).2.2 [first] second [] his rfl
    (List.forall_mem_singleton.mpr hdeclares) hnot⟩

end Grammar

end CodeTint
