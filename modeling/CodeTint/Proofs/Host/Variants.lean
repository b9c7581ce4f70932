import CodeTint.Proofs.Highlight.RuleLists
import CodeTint.Proofs.Host.Acceptance
import CodeTint.Proofs.Host.Groups
import CodeTint.Proofs.Host.Modes

/-!
# Writing out the variants of a mode

A mode with variants can be replaced by modes without, one for each variant, which declare what the
variant declares together with the mode (`HostKeys.writeOut`). The rules are not the same: the
patterns of one mode become one rule. But they come to the same when they are taken apart, unless a
region stands between two patterns of the mode (`flatMap_apart_foldl_add`), and texts are
then highlighted alike (`Grammar.ofHost_writeOut`).
-/

namespace CodeTint

/-! ## Declarations as rules of their own -/

namespace Declaration

/-- The rule that the declaration gives by itself. -/
def rule (category : Category) : Declaration → Rule
  | region opening closing illegal => .region ⟨category, opening, closing, illegal⟩
  | pattern source => .pattern ⟨category, [source]⟩

def IsRegion (declaration : Declaration) : Prop :=
  ∃ opening closing illegal, declaration = region opening closing illegal

end Declaration

/-- No region comes behind a pattern and before another one. -/
def PatternsTogether (declarations : List Declaration) : Prop :=
  ∀ first opening closing illegal last,
    ¬[.pattern first, .region opening closing illegal, .pattern last].Sublist declarations

section Apart

variable {category : Category} {declarations : List Declaration}

theorem rules_foldl_add_of_isRegion (h : ∀ declaration ∈ declarations, declaration.IsRegion)
    (state : ModeRules) :
    (declarations.foldl (ModeRules.add category) state).rules =
      state.rules ++ declarations.map (·.rule category) := by
  induction declarations generalizing state with
  | nil => exact (List.append_nil _).symm
  | cons declaration declarations ih =>
      obtain ⟨⟨opening, closing, illegal, rfl⟩, hregions⟩ := List.forall_mem_cons.mp h
      rw [List.foldl_cons, ih hregions, ModeRules.add, List.append_assoc, List.map_cons]
      rfl

theorem flatMap_apart_map_rule (declarations : List Declaration) :
    (declarations.map (·.rule category)).flatMap Rule.apart =
      declarations.map (·.rule category) := by
  induction declarations with
  | nil => rfl
  | cons declaration declarations ih =>
      rw [List.map_cons, List.flatMap_cons, ih]
      cases declaration <;> rfl

/-- Behind a pattern rule, further patterns join it; what comes behind the first region has to be
regions. -/
theorem flatMap_apart_foldl_add_around {regions : List RegionRule}
    (h : ∀ opening closing illegal last,
      ¬[.region opening closing illegal, .pattern last].Sublist declarations)
    (variants : List String) :
    (declarations.foldl (ModeRules.add category)
        (.around regions ⟨category, variants⟩ [])).rules.flatMap Rule.apart =
      (ModeRules.around regions ⟨category, variants⟩ []).rules.flatMap Rule.apart ++
        declarations.map (·.rule category) := by
  induction declarations generalizing variants with
  | nil => exact (List.append_nil _).symm
  | cons declaration declarations ih =>
      cases declaration with
      | region opening closing illegal =>
          have hregions : ∀ declaration ∈
              Declaration.region opening closing illegal :: declarations,
              declaration.IsRegion := by
            intro declaration hmem
            rcases List.mem_cons.mp hmem with rfl | hmem
            · exact ⟨_, _, _, rfl⟩
            · cases declaration with
              | region opening closing illegal => exact ⟨_, _, _, rfl⟩
              | pattern last =>
                  exact absurd ((List.singleton_sublist.mpr hmem).cons_cons _) (h _ _ _ _)
          rw [rules_foldl_add_of_isRegion hregions, List.flatMap_append, flatMap_apart_map_rule]
      | pattern pattern =>
          rw [List.foldl_cons, ModeRules.add_pattern_around,
            ih fun _ _ _ _ hsub => h _ _ _ _ (hsub.cons _)]
          simp [ModeRules.around, Rule.apart, Declaration.rule]

/-- If the patterns stand together, the rules of the declarations come to one rule for each. -/
theorem flatMap_apart_foldl_add (h : PatternsTogether declarations) (regions : List RegionRule) :
    (declarations.foldl (ModeRules.add category) (.ofRegions regions)).rules.flatMap Rule.apart =
      (regions.map Rule.region).flatMap Rule.apart ++ declarations.map (·.rule category) := by
  induction declarations generalizing regions with
  | nil => exact (List.append_nil _).symm
  | cons declaration declarations ih =>
      cases declaration with
      | region opening closing illegal =>
          rw [List.foldl_cons, ModeRules.add_region_ofRegions,
            ih fun _ _ _ _ _ hsub => h _ _ _ _ _ (hsub.cons _)]
          simp [Rule.apart, Declaration.rule]
      | pattern pattern =>
          rw [List.foldl_cons, ModeRules.add_pattern_ofRegions, flatMap_apart_foldl_add_around
            fun _ _ _ _ hsub => h _ _ _ _ _ (hsub.cons_cons _)]
          simp [ModeRules.around, Rule.apart, Declaration.rule]

end Apart

/-! ## Modes written out -/

namespace HostKeys

/-- The keys of the mode in which a variant is written out: the label of the mode that it belongs
to, and the keys of that mode that the variant does not set itself. -/
def writeOut (keys : HostKeys) : HostMode → HostKeys
  | .mk own _ => {
      label := keys.label
      opening := own.opening.or keys.opening
      closing := own.closing.or keys.closing
      illegal := own.illegal.or keys.illegal
      pattern := own.pattern.or keys.pattern }

/-- The modes that stand in the place of a mode with the given variants, one for each of them. -/
def writeOutAll (keys : HostKeys) (variants : List HostMode) : List HostMode :=
  variants.map fun variant => .mk (keys.writeOut variant) []

/-- A mode without variants, as an object with the given keys. -/
def toHost (keys : HostKeys) : Json :=
  .ofMembers (Json.optionalMember "className" keys.label ++
    Json.optionalMember "begin" keys.opening ++ Json.optionalMember "end" keys.closing ++
    Json.optionalMember "illegal" keys.illegal ++ Json.optionalMember "match" keys.pattern)

end HostKeys

namespace HostMode

variable {keys : HostKeys} {variants : List HostMode} {declarations : List Declaration}
  {category : Category}

theorem ofJson?_toHost_keys (keys : HostKeys) : ofJson? keys.toHost = some (mk keys []) := by
  obtain ⟨label, opening, closing, illegal, pattern⟩ := keys
  cases label <;> cases opening <;> cases closing <;> cases illegal <;> cases pattern <;> rfl

theorem rules_writeOut {own : HostKeys} {inner : List HostMode} {declaration : Declaration}
    (hcategory : keys.category = .ok category)
    (hdeclaration : (own.inherit keys).declaration = .ok declaration) :
    (mk (keys.writeOut (mk own inner)) []).rules = .ok [declaration.rule category] := by
  have hcategory' : (keys.writeOut (mk own inner)).category = .ok category := hcategory
  have hdeclaration' : (keys.writeOut (mk own inner)).declaration = .ok declaration := hdeclaration
  rw [rules, hcategory', HostMode.declarations, hdeclaration']
  cases declaration <;> rfl

/-- Modes that are written out give one rule for each declaration. -/
theorem mapM_rules_writeOut (hcategory : keys.category = .ok category)
    (hdeclarations : variants.mapM (fun (mk own _) => (own.inherit keys).declaration) =
      .ok declarations) :
    (keys.writeOutAll variants).mapM rules =
      .ok (declarations.map fun declaration => [declaration.rule category]) := by
  rw [mapM_eq_ok_iff_forall₂] at hdeclarations ⊢
  rw [HostKeys.writeOutAll, List.forall₂_map_left_iff, List.forall₂_map_right_iff]
  refine hdeclarations.imp fun variant declaration hdeclaration => ?_
  obtain ⟨own, inner⟩ := variant
  exact rules_writeOut hcategory hdeclaration

/-- The rules of a mode, and those of the modes in which its variants are written out, come to the
same when they are taken apart, if the patterns of the mode stand together. -/
theorem exists_mapM_rules_writeOut {list : List Rule} (hvariants : variants ≠ [])
    (hrules : (mk keys variants).rules = .ok list)
    (htogether : ∀ declarations, (mk keys variants).declarations = .ok declarations →
      PatternsTogether declarations) :
    ∃ lists, (keys.writeOutAll variants).mapM rules = .ok lists ∧
      lists.flatten.flatMap Rule.apart = list.flatMap Rule.apart := by
  obtain ⟨category, declarations, hcategory, hdeclarations, hlist⟩ := rules_eq_ok_iff.mp hrules
  have hread := hdeclarations
  rw [HostMode.declarations] at hread
  · refine ⟨_, mapM_rules_writeOut hcategory hread, ?_⟩
    have hapart : (declarations.foldl (ModeRules.add category) .empty).rules.flatMap Rule.apart =
        declarations.map (·.rule category) :=
      flatMap_apart_foldl_add (htogether _ hdeclarations) []
    rw [← hlist, ← List.flatMap_def, ← List.map_eq_flatMap, flatMap_apart_map_rule]
    exact hapart.symm
  · exact hvariants

end HostMode

/-! ## Host objects with a mode written out -/

namespace Grammar

/-- What a host object with the given modes is read as: with other modes, it gives a grammar that
differs in its rules and its shape only. -/
theorem exists_of_ofHost_eq_ok {members : List (String × Json)} {items : List Json}
    {grammar : Grammar} (hcontains : members.lookup "contains" = some (.array items))
    (hgrammar : ofHost (.object members) = .ok grammar) :
    ∃ modes lists, hostModes? items = some modes ∧ modes.mapM HostMode.rules = .ok lists ∧
      lists.flatten = grammar.rules ∧
      ∀ others modes' lists', hostModes? others = some modes' →
        modes'.mapM HostMode.rules = .ok lists' →
          ∃ shape, ofHost (.object (putMember "contains" (.array others) members)) =
            .ok { grammar with rules := lists'.flatten, shape } := by
  obtain ⟨host, lists, hread, hlists, rfl⟩ := ofHost_eq_ok_iff.mp hgrammar
  obtain ⟨hname, hkeywords, hmodes⟩ := (HostGrammar.ofJson?_object_eq_some_iff hcontains).mp hread
  refine ⟨host.modes, lists, hmodes, hlists, rfl, fun others modes' lists' hmodes' hlists' => ?_⟩
  have hread' : HostGrammar.ofJson? (.object (putMember "contains" (.array others) members)) =
      some ⟨host.name, host.keywords, modes'⟩ := by
    rw [HostGrammar.ofJson?_object_eq_some_iff (Json.get?_putMember _ _ _ _), Json.get?_putMember,
      Json.get?_putMember]
    exact ⟨hname, hkeywords, hmodes'⟩
  exact ⟨_, ofHost_eq_ok_iff.mpr ⟨_, lists', hread', hlists', rfl⟩⟩

/-- A mode with variants can be written out: if no region stands between two patterns of the mode,
the host object with modes of their own for the variants gives a grammar as well, which has the same
first fault in a pattern or none, and texts are highlighted alike. -/
theorem ofHost_writeOut (read : String → Option Pattern) [ReadsLeftmost read]
    {members : List (String × Json)} {front back written : List Json}
    {mode : Json} {keys : HostKeys} {variants : List HostMode} {grammar : Grammar}
    (hcontains : members.lookup "contains" = some (.array (front ++ mode :: back)))
    (hgrammar : ofHost (.object members) = .ok grammar)
    (hmode : HostMode.ofJson? mode = some (.mk keys variants)) (hvariants : variants ≠ [])
    (htogether : ∀ declarations, (HostMode.mk keys variants).declarations = .ok declarations →
      PatternsTogether declarations)
    (hwritten : hostModes? written = some (keys.writeOutAll variants)) :
    ∃ other, ofHost (.object (putMember "contains" (.array (front ++ written ++ back)) members)) =
        .ok other ∧
      (∀ invalid, Highlighter.ofGrammar read other = .error invalid ↔
        Highlighter.ofGrammar read grammar = .error invalid) ∧
      ∀ h h', Highlighter.ofGrammar read grammar = .ok h →
        Highlighter.ofGrammar read other = .ok h' →
        ∀ text, h'.highlight text = h.highlight text := by
  obtain ⟨modes, lists, hmodes, hlists, hrules, hother⟩ :=
    exists_of_ofHost_eq_ok hcontains hgrammar
  -- The modes and their rules are split where the mode stands.
  rw [hostModes?_eq_some_iff, forall₂_append_cons_left_iff] at hmodes
  obtain ⟨frontModes, own, backModes, rfl, hfront, hown, hback⟩ := hmodes
  obtain rfl := Option.some.inj (hown.symm.trans hmode)
  rw [mapM_eq_ok_iff_forall₂, forall₂_append_cons_left_iff] at hlists
  obtain ⟨frontLists, list, backLists, rfl, hfrontLists, hlist, hbackLists⟩ := hlists
  obtain ⟨writtenLists, hwrittenLists, hapart⟩ :=
    HostMode.exists_mapM_rules_writeOut hvariants hlist htogether
  have hmodes' : hostModes? (front ++ written ++ back) =
      some (frontModes ++ keys.writeOutAll variants ++ backModes) := by
    rw [hostModes?_eq_some_iff] at hwritten ⊢
    exact List.rel_append (List.rel_append hfront hwritten) hback
  have hlists' : (frontModes ++ keys.writeOutAll variants ++ backModes).mapM HostMode.rules =
      .ok (frontLists ++ writtenLists ++ backLists) := by
    rw [mapM_eq_ok_iff_forall₂] at hwrittenLists ⊢
    exact List.rel_append (List.rel_append hfrontLists hwrittenLists) hbackLists
  obtain ⟨shape, hother⟩ := hother _ _ _ hmodes' hlists'
  refine ⟨_, hother, Highlighter.ofGrammar_alike_of_apart read rfl ?_⟩
  rw [← hrules]
  simp only [List.flatten_append, List.flatten_cons, List.flatMap_append, hapart,
    List.append_assoc]

/-- A region and two patterns that are written out between other modes. -/
theorem ofHost_writeOut_region_and_patterns :
    let variants := Json.array [.object [("begin", .string "/")], .object [("match", .string "a+")],
      .object [("begin", .string "b"), ("match", .string "b+")]]
    let mode := Json.object [("end", .string "/"), ("scope", .string "string"),
      ("variants", variants)]
    let other := Json.object [("className", .string "number"), ("begin", .string "[0-9]")]
    let members := [("contains", Json.array [other, mode, other]), ("name", .string "A")]
    let keys : HostKeys := ⟨some "string", none, some "/", none, none⟩
    let written := [HostKeys.mk (some "string") (some "/") (some "/") none none,
      ⟨some "string", none, some "/", none, some "a+"⟩,
      ⟨some "string", some "b", some "/", none, some "b+"⟩]
    ∃ grammar own, ofHost (.object members) = .ok grammar ∧
      HostMode.ofJson? mode = some (.mk keys own) ∧ own ≠ [] ∧
      ∃ grammar', ofHost (.object (putMember "contains"
          (.array ([other] ++ written.map HostKeys.toHost ++ [other])) members)) = .ok grammar' ∧
        (∀ invalid, Highlighter.ofGrammar Pattern.ofString? grammar' = .error invalid ↔
          Highlighter.ofGrammar Pattern.ofString? grammar = .error invalid) ∧
        ∀ h h', Highlighter.ofGrammar Pattern.ofString? grammar = .ok h →
          Highlighter.ofGrammar Pattern.ofString? grammar' = .ok h' →
            ∀ text, h'.highlight text = h.highlight text := by
  intro variants mode other members keys written
  refine ⟨_, _, rfl, rfl, List.cons_ne_nil _ _, ?_⟩
  refine ofHost_writeOut Pattern.ofString? rfl rfl rfl (List.cons_ne_nil _ _) ?_ ?_
  · intro declarations hdeclarations
    obtain rfl := Except.ok.inj hdeclarations
    intro first opening closing illegal last hsub
    simp [List.sublist_cons_iff] at hsub
  · exact hostModes?_map HostMode.ofJson?_toHost_keys written

end Grammar

end CodeTint
