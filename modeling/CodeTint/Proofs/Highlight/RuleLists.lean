import CodeTint.Proofs.Highlight.Lookahead
import CodeTint.Proofs.Highlight.Words

/-!
# Rules in another arrangement

The rules of a highlighter are a list, and indices into it decide between rules that begin together.
What a rule does, however, does not depend on its index: it may be taken apart into rules of one
variant each, and rules that begin nowhere may be put between the others.
-/

namespace CodeTint

/-! ## Variants as rules of their own

A pattern rule begins where the earliest of its variants does, and what it takes there does not
depend on which variant that is. It can therefore be taken apart into rules of one variant each that
stand in its place: the earliest of all rules is found in one step or in two
(`earliestBy_flatMap`). Highlighters whose rules come to the same when they are taken apart
highlight every text alike (`highlight_eq_of_apart`), and grammars whose rules do have the same
first fault in a pattern (`ofGrammar_alike_of_apart`). -/

/-! ### The earliest of several lists -/

section Earliest

variable {α β : Type} {place : α → Nat}

theorem earlierBy_none (option : Option α) : earlierBy place option none = option := by
  cases option <;> rfl

theorem earlierBy_assoc (first second third : Option α) :
    earlierBy place (earlierBy place first second) third =
      earlierBy place first (earlierBy place second third) := by
  cases first with
  | none => rfl
  | some a =>
      cases second with
      | none => rfl
      | some b =>
          cases third with
          | none => simp only [earlierBy_none]
          | some c =>
              by_cases hba : place b < place a <;> by_cases hcb : place c < place b <;>
                by_cases hca : place c < place a <;> simp [earlierBy, hba, hcb, hca] <;> omega

theorem earliestBy_append (options others : List (Option α)) :
    earliestBy place (options ++ others) =
      earlierBy place (earliestBy place options) (earliestBy place others) := by
  induction options with
  | nil => rfl
  | cons option options ih =>
      show earlierBy place option (earliestBy place (options ++ others)) = _
      rw [ih, ← earlierBy_assoc]
      rfl

theorem earliestBy_flatMap (options : β → List (Option α)) (items : List β) :
    earliestBy place (items.flatMap options) =
      earliestBy place (items.map fun item => earliestBy place (options item)) := by
  induction items with
  | nil => rfl
  | cons item items ih =>
      rw [List.flatMap_cons, earliestBy_append, ih]
      rfl

/-- What comes earliest does so whatever is made of it, if it stays at its place. -/
theorem map_earliestBy (place' : β → Nat) {f : α → β} (hplace : ∀ a, place' (f a) = place a)
    (options : List (Option α)) :
    (earliestBy place options).map f = earliestBy place' (options.map (Option.map f)) := by
  induction options with
  | nil => rfl
  | cons option options ih =>
      show (earlierBy place option (earliestBy place options)).map f =
        earlierBy place' (option.map f) (earliestBy place' (options.map (Option.map f)))
      rw [← ih]
      cases option with
      | none => rfl
      | some a =>
          cases earliestBy place options with
          | none => rfl
          | some b =>
              simp only [earlierBy, Option.map_some, hplace]
              split <;> rfl

end Earliest

/-! ### Tokens of rules -/

/-- A match with which a rule begins, and what the rule makes of it. -/
structure Beginning where
  begin : Stretch
  taken : Scanned

namespace CompiledRule

/-- Where the rule next begins, from the given place on, and what it takes there. -/
def nextBeginning (rule : CompiledRule) (c : Cursor) : Option Beginning :=
  (rule.nextBegin c).map fun begin => ⟨begin, rule.take begin⟩

/-- The rules of one variant each that stand in the place of the rule. -/
def apart : CompiledRule → List CompiledRule
  | region category opening closing illegal => [region category opening closing illegal]
  | pattern category variants => variants.map fun variant => pattern category [variant]

/-- What the rule takes next is what the earliest of the rules takes that stand in its place. -/
theorem nextBeginning_eq_earliestBy (rule : CompiledRule) (c : Cursor) :
    rule.nextBeginning c =
      earliestBy (·.begin.start.offset) (rule.apart.map (·.nextBeginning c)) := by
  cases rule with
  | region category opening closing illegal => exact (earlierBy_none _).symm
  | pattern category variants =>
      have hsingle : ∀ variant : Pattern, (pattern category [variant]).nextBeginning c =
          (variant.findNonEmpty c).map
            fun begin => ⟨begin, (pattern category variants).take begin⟩ := by
        intro variant
        rw [nextBeginning, nextBegin, List.map_singleton]
        exact congrArg _ (earlierBy_none _)
      rw [nextBeginning, nextBegin, apart, List.map_map,
        map_earliestBy (fun beginning : Beginning => beginning.begin.start.offset) fun _ => rfl,
        List.map_map]
      exact congrArg _ (List.map_congr_left fun variant _ => (hsingle variant).symm)

end CompiledRule

namespace Highlighter

variable {h h' : Highlighter} {c : Cursor} {text : String}

/-- What the rules take next, from the given place on. -/
def nextBeginning (h : Highlighter) (c : Cursor) : Option Beginning :=
  earliestBy (·.begin.start.offset) (h.rules.map (·.nextBeginning c))

theorem nextBeginning_eq_map (h : Highlighter) (c : Cursor) :
    h.nextBeginning c = (h.earliestRule c).map fun candidate =>
      ⟨candidate.begin, candidate.rule.take candidate.begin⟩ := by
  rw [earliestRule, earliestCandidate, nextBeginning,
    map_earliestBy (fun beginning : Beginning => beginning.begin.start.offset) fun _ => rfl]
  refine congrArg _ (List.ext_getElem? fun i => ?_)
  simp only [List.getElem?_map, List.getElem?_mapIdx, Option.map_map]
  refine congrArg (Option.map · h.rules[i]?) (funext fun rule => ?_)
  rw [Function.comp_apply, CompiledRule.candidate, Option.map_map]
  rfl

theorem nextBeginning_eq_of_apart
    (hrules : h.rules.flatMap CompiledRule.apart = h'.rules.flatMap CompiledRule.apart)
    (c : Cursor) : h.nextBeginning c = h'.nextBeginning c := by
  have hflat : ∀ rules : List CompiledRule,
      earliestBy (·.begin.start.offset) (rules.map (·.nextBeginning c)) =
        earliestBy (·.begin.start.offset)
          ((rules.flatMap CompiledRule.apart).map (·.nextBeginning c)) := by
    intro rules
    rw [List.map_flatMap, earliestBy_flatMap]
    exact congrArg _ (List.map_congr_left fun rule _ => rule.nextBeginning_eq_earliestBy c)
  rw [nextBeginning, nextBeginning, hflat h.rules, hflat h'.rules, hrules]

/-! ### Scans that take the same -/

theorem scanPart_eq_of_nextBeginning (hgap : ∀ gap, h.classifyGap gap = h'.classifyGap gap)
    (hnext : h.nextBeginning c = h'.nextBeginning c) :
    h.scanPart c (h.earliestRule c) = h'.scanPart c (h'.earliestRule c) := by
  rw [nextBeginning_eq_map, nextBeginning_eq_map] at hnext
  cases hbest : h.earliestRule c with
  | none =>
      rw [hbest, Option.map_none, eq_comm, Option.map_eq_none_iff] at hnext
      rw [hnext, scanPart, scanPart, hgap]
  | some candidate =>
      rw [hbest, Option.map_some, eq_comm, Option.map_eq_some_iff] at hnext
      obtain ⟨candidate', hbest', heq⟩ := hnext
      obtain ⟨hbegin, htaken⟩ := Beginning.mk.inj heq
      simp only [hbest', scanPart, hgap, hbegin, ← htaken]

/-- Scans that find the same words in every gap, and at every place of the text take the same, find
the same spans. -/
theorem highlight_eq_of_nextBeginning [h.Leftmost] [h'.Leftmost]
    (hgap : ∀ gap, h.classifyGap gap = h'.classifyGap gap)
    (hnext : ∀ c, .atStart text.toList 0 ≤ c → h.nextBeginning c = h'.nextBeginning c) :
    h.highlight text = h'.highlight text := by
  have hscan : ∀ fuel c, .atStart text.toList 0 ≤ c →
      h.scanAfreshFrom fuel c = h'.scanAfreshFrom fuel c := by
    intro fuel
    induction fuel with
    | zero => exact fun _ _ => rfl
    | succ fuel ih =>
        intro c hc
        have hpart := scanPart_eq_of_nextBeginning hgap (hnext c hc)
        rw [scanAfreshFrom, scanAfreshFrom, hpart]
        split
        · rfl
        · simp only [ih _ (hc.trans (h'.le_scanPart_next c))]
  rw [highlight_eq_highlightAfresh, highlight_eq_highlightAfresh, highlightAfresh,
    highlightAfresh]
  simp only [hscan _ _ (le_refl _)]

/-- Highlighters that know the same words, and whose rules come to the same when they are taken
apart, highlight every text alike. -/
theorem highlight_eq_of_apart [h.Leftmost] [h'.Leftmost]
    (hpattern : h.wordPattern = h'.wordPattern)
    (hwords : ∀ word, h.classifyWord word = h'.classifyWord word)
    (hrules : h.rules.flatMap CompiledRule.apart = h'.rules.flatMap CompiledRule.apart)
    (text : String) : h.highlight text = h'.highlight text :=
  highlight_eq_of_nextBeginning (fun _ => classifyFrom_congr hpattern hwords _ _)
    fun c _ => nextBeginning_eq_of_apart hrules c

end Highlighter

/-! ### Grammars -/

/-- The rules of one variant each that stand in the place of the rule. -/
def Rule.apart : Rule → List Rule
  | .region rule => [.region rule]
  | .pattern rule => rule.variants.map fun variant => .pattern ⟨rule.category, [variant]⟩

/-- A rule can be taken apart before its patterns are read, or afterwards. -/
theorem Rule.mapM_compile_apart (read : String → Option Pattern) (rule : Rule) :
    rule.apart.mapM (compile read) = (rule.compile read).map CompiledRule.apart := by
  cases rule with
  | region rule =>
      rw [apart, List.mapM_cons, List.mapM_nil, compile]
      cases compilePattern read .regionOpening rule.opening with
      | error invalid => rfl
      | ok opening =>
          cases compilePattern read .regionClosing rule.closing with
          | error invalid => rfl
          | ok closing =>
              cases rule.illegal.mapM (compilePattern read .regionIllegal) with
              | error invalid => rfl
              | ok illegal => rfl
  | pattern rule =>
      obtain ⟨category, variants⟩ := rule
      induction variants with
      | nil => rfl
      | cons variant variants ih =>
          rw [apart, compile] at ih ⊢
          rw [List.map_cons, List.mapM_cons, ih, List.mapM_cons, compile, List.mapM_cons,
            List.mapM_nil]
          cases compilePattern read .rule variant with
          | error invalid => rfl
          | ok first =>
              cases variants.mapM (compilePattern read .rule) with
              | error invalid => rfl
              | ok others => rfl

theorem mapM_compile_flatMap_apart (read : String → Option Pattern) (rules : List Rule) :
    (rules.flatMap Rule.apart).mapM (Rule.compile read) =
      (rules.mapM (Rule.compile read)).map (·.flatMap CompiledRule.apart) := by
  induction rules with
  | nil => rfl
  | cons rule rules ih =>
      rw [List.flatMap_cons, List.mapM_append, ih, rule.mapM_compile_apart read, List.mapM_cons]
      cases rule.compile read with
      | error invalid => rfl
      | ok compiled =>
          cases rules.mapM (Rule.compile read) with
          | error invalid => rfl
          | ok others => rfl

namespace Highlighter

/-- Grammars that have the same keywords, and whose rules come to the same when they are taken
apart, have the same first fault in a pattern or none, and highlight every text alike. -/
theorem ofGrammar_alike_of_apart (read : String → Option Pattern) [ReadsLeftmost read]
    {grammar other : Grammar} (hkeywords : other.keywords = grammar.keywords)
    (hrules : other.rules.flatMap Rule.apart = grammar.rules.flatMap Rule.apart) :
    (∀ invalid, ofGrammar read other = .error invalid ↔ ofGrammar read grammar = .error invalid) ∧
      ∀ h h', ofGrammar read grammar = .ok h → ofGrammar read other = .ok h' →
        ∀ text, h'.highlight text = h.highlight text := by
  have hcompile : (other.rules.mapM (Rule.compile read)).map (·.flatMap CompiledRule.apart) =
      (grammar.rules.mapM (Rule.compile read)).map (·.flatMap CompiledRule.apart) := by
    rw [← mapM_compile_flatMap_apart, ← mapM_compile_flatMap_apart, hrules]
  refine ⟨fun invalid => ?_, fun h h' hh hh' text => ?_⟩
  · rw [ofGrammar, ofGrammar, hkeywords]
    cases hread : grammar.rules.mapM (Rule.compile read) <;>
      cases hother : other.rules.mapM (Rule.compile read) <;> rw [hread, hother] at hcompile
    · obtain rfl := Except.error.inj hcompile
      rfl
    · cases hcompile
    · cases hcompile
    · cases compilePattern read .keyword grammar.keywords.pattern with
      | error fault => rfl
      | ok wordPattern => exact ⟨fun heq => (by cases heq), fun heq => (by cases heq)⟩
  · have := leftmost_of_ofGrammar hh
    have := leftmost_of_ofGrammar hh'
    obtain ⟨rules, wordPattern, hread, hpattern, rfl⟩ := ofGrammar_eq_ok_iff.mp hh
    obtain ⟨rules', wordPattern', hread', hpattern', rfl⟩ := ofGrammar_eq_ok_iff.mp hh'
    rw [hread, hread'] at hcompile
    rw [hkeywords, hpattern] at hpattern'
    have hapart : rules'.flatMap CompiledRule.apart = rules.flatMap CompiledRule.apart :=
      Except.ok.inj hcompile
    refine highlight_eq_of_apart (Except.ok.inj hpattern').symm (fun _ => ?_) hapart text
    simp only [classifyWord, hkeywords]

/-- It makes no difference whether variants belong to one pattern rule or to two consecutive ones of
its category: either no highlighter comes of the one grammar nor of the other, for the same pattern,
or both highlight every text alike. -/
theorem split_variants_alike (read : String → Option Pattern) [ReadsLeftmost read]
    (grammar : Grammar) (before after : List Rule) (category : Category)
    (variants others : List String) :
    let joined : Grammar :=
      { grammar with rules := before ++ .pattern ⟨category, variants ++ others⟩ :: after }
    let split : Grammar :=
      { grammar with
        rules := before ++ .pattern ⟨category, variants⟩ :: .pattern ⟨category, others⟩ :: after }
    (∃ invalid, ofGrammar read joined = .error invalid ∧ ofGrammar read split = .error invalid) ∨
      ∃ h h', ofGrammar read joined = .ok h ∧ ofGrammar read split = .ok h' ∧
        ∀ text, h'.highlight text = h.highlight text := by
  intro joined split
  have hrules : split.rules.flatMap Rule.apart = joined.rules.flatMap Rule.apart := by
    simp only [split, joined, List.flatMap_append, List.flatMap_cons, Rule.apart, List.map_append,
      List.append_assoc]
  have hkeywords : split.keywords = joined.keywords := rfl
  obtain ⟨hfault, halike⟩ := ofGrammar_alike_of_apart read hkeywords hrules
  cases hjoined : ofGrammar read joined with
  | error invalid => exact .inl ⟨invalid, rfl, (hfault invalid).mpr hjoined⟩
  | ok h =>
      cases hsplit : ofGrammar read split with
      | error invalid =>
          rw [(hfault invalid).mp hsplit] at hjoined
          cases hjoined
      | ok h' => exact .inr ⟨h, h', rfl, rfl, halike h h' hjoined hsplit⟩

/-- Comments and two forms of numbers. -/
def commentsBeforeDigits : Grammar where
  name := "comments before digits"
  keywords := ⟨"[g-z]+", [⟨.keyword, ["if"]⟩]⟩
  rules := [.region ⟨.string, "#", "#", none⟩, .pattern ⟨.number, ["[0-9]+", "[0-9a-f]+"]⟩]
  shape := .legacy

/-- Of the variants that begin together the first one takes less, while a comment lies ahead. -/
theorem split_variants_alike_at_one_place :
    ∃ h h', ofGrammar Pattern.ofString? commentsBeforeDigits = .ok h ∧
      ofGrammar Pattern.ofString? { commentsBeforeDigits with
        rules := [.region ⟨.string, "#", "#", none⟩, .pattern ⟨.number, ["[0-9]+"]⟩,
          .pattern ⟨.number, ["[0-9a-f]+"]⟩] } = .ok h' ∧
      h'.highlight "i1a #2#" = h.highlight "i1a #2#" ∧
      h.highlight "i1a #2#" = [⟨none, 0, 1⟩, ⟨some .number, 1, 2⟩, ⟨some .number, 2, 3⟩,
        ⟨none, 3, 4⟩, ⟨some .string, 4, 7⟩] := by
  obtain ⟨joined, hok, hspans⟩ : ∃ h, ofGrammar Pattern.ofString? commentsBeforeDigits = .ok h ∧
      h.highlight "i1a #2#" = [⟨none, 0, 1⟩, ⟨some .number, 1, 2⟩, ⟨some .number, 2, 3⟩,
        ⟨none, 3, 4⟩, ⟨some .string, 4, 7⟩] := by
    refine ⟨_, rfl, ?_⟩
    decide +kernel
  rcases split_variants_alike Pattern.ofString? commentsBeforeDigits
    [.region ⟨.string, "#", "#", none⟩] [] .number ["[0-9]+"] ["[0-9a-f]+"] with
    ⟨invalid, hjoined, -⟩ | ⟨h, h', hjoined, hsplit, halike⟩
  · exact absurd (hok.symm.trans hjoined) nofun
  · obtain rfl := Except.ok.inj (hok.symm.trans hjoined)
    exact ⟨joined, h', hok, hsplit, halike _, hspans⟩

end Highlighter

/-! ## Rules that begin nowhere

A rule none of whose patterns has a match in a text that is not empty is never a candidate there, so
that the text is highlighted as if the rule were not listed (`Highlighter.highlight_eq_of_idle`). It
may stand anywhere among the other rules, although they are known by their places in the list: what
begins earliest does so whatever stands between, and the places decide only which of two comes
first. -/

namespace CompiledRule

/-- None of the patterns with which the rule begins has a match in the text that is not empty. -/
def IsIdleIn (rule : CompiledRule) (text : String) : Prop :=
  ∀ p ∈ rule.beginPatterns, p.findNonEmpty (.atStart text.toList 0) = none

variable {rule : CompiledRule} [rule.Leftmost] {text : String} {c : Cursor}

theorem IsIdleIn.nextBegin_eq_none (h : rule.IsIdleIn text) (hc : .atStart text.toList 0 ≤ c) :
    rule.nextBegin c = none := by
  refine nextBegin_eq_none_iff.mpr fun p hp => ?_
  have := Leftmost.of_mem_beginPatterns hp
  exact Pattern.findNonEmpty_eq_none_iff.mp (Pattern.findNonEmpty_eq_none_of_le (h p hp) hc)

theorem IsIdleIn.nextBeginning_eq_none (h : rule.IsIdleIn text)
    (hc : .atStart text.toList 0 ≤ c) : rule.nextBeginning c = none := by
  rw [nextBeginning, h.nextBegin_eq_none hc, Option.map_none]

end CompiledRule

theorem earliestBy_append_none_cons {α : Type} {place : α → Nat}
    (options others : List (Option α)) :
    earliestBy place (options ++ none :: others) = earliestBy place (options ++ others) := by
  rw [earliestBy_append, earliestBy_append]
  rfl

namespace Highlighter

variable {h h' : Highlighter} {front back : List CompiledRule} {rule : CompiledRule}
  [rule.Leftmost] {text : String} {c : Cursor}

/-- From every place of the text the other rules take what they take without the idle one. -/
theorem nextBeginning_eq_of_idle (hrules : h.rules = front ++ back)
    (hrules' : h'.rules = front ++ rule :: back) (hidle : rule.IsIdleIn text)
    (hc : .atStart text.toList 0 ≤ c) : h.nextBeginning c = h'.nextBeginning c := by
  rw [nextBeginning, nextBeginning, hrules, hrules', List.map_append, List.map_append,
    List.map_cons, hidle.nextBeginning_eq_none hc, earliestBy_append_none_cons]

/-- Highlighters that differ in a rule that is idle in the text only highlight it alike. -/
theorem highlight_eq_of_idle [h.Leftmost] [h'.Leftmost] (hrules : h.rules = front ++ back)
    (hrules' : h'.rules = front ++ rule :: back) (hpattern : h.wordPattern = h'.wordPattern)
    (hwords : h.words = h'.words) (hidle : rule.IsIdleIn text) :
    h.highlight text = h'.highlight text := by
  have hclassify : ∀ word, h.classifyWord word = h'.classifyWord word := fun word => by
    rw [classifyWord, classifyWord, hwords]
  exact highlight_eq_of_nextBeginning (fun _ => classifyFrom_congr hpattern hclassify _ _)
    fun c hc => nextBeginning_eq_of_idle hrules hrules' hidle hc

end Highlighter

/-! ### Grammars -/

section Grammars

variable {read : String → Option Pattern} {before after : List Rule} {rule : Rule}
  {compiled : CompiledRule}

theorem exists_mapM_compile_insert {rules : List CompiledRule}
    (h : (before ++ after).mapM (Rule.compile read) = .ok rules)
    (hrule : rule.compile read = .ok compiled) :
    ∃ front back, rules = front ++ back ∧
      (before ++ rule :: after).mapM (Rule.compile read) = .ok (front ++ compiled :: back) := by
  rw [List.mapM_append] at h
  rw [List.mapM_append, List.mapM_cons, hrule]
  cases hfront : before.mapM (Rule.compile read) with
  | error invalid => rw [hfront] at h; cases h
  | ok front =>
      cases hback : after.mapM (Rule.compile read) with
      | error invalid => rw [hfront, hback] at h; cases h
      | ok back =>
          rw [hfront, hback] at h
          exact ⟨front, back, (Except.ok.inj h).symm, rfl⟩

/-- A rule whose patterns can be read may be put in anywhere among the rules of a grammar. The
grammar can still be made ready, and every text in which the rule is idle is highlighted as before.
-/
theorem Highlighter.highlight_of_inserted_idle (read : String → Option Pattern) [ReadsLeftmost read]
    (grammar : Grammar) {before after : List Rule} {rule : Rule} {compiled : CompiledRule}
    {h : Highlighter} (hrules : grammar.rules = before ++ after)
    (hready : ofGrammar read grammar = .ok h) (hrule : rule.compile read = .ok compiled) :
    ∃ h', ofGrammar read { grammar with rules := before ++ rule :: after } = .ok h' ∧
      ∀ text, compiled.IsIdleIn text → h'.highlight text = h.highlight text := by
  have := leftmost_of_ofGrammar hready
  have := rule.leftmost_of_compile hrule
  obtain ⟨rules, wordPattern, hread, hpattern, rfl⟩ := ofGrammar_eq_ok_iff.mp hready
  rw [hrules] at hread
  obtain ⟨front, back, rfl, hinserted⟩ := exists_mapM_compile_insert hread hrule
  have hready' : ofGrammar read { grammar with rules := before ++ rule :: after } =
      .ok ⟨_, front ++ compiled :: back, wordPattern, wordTable grammar.keywords.groups⟩ :=
    ofGrammar_eq_ok_iff.mpr ⟨_, _, hinserted, hpattern, rfl⟩
  have := leftmost_of_ofGrammar hready'
  refine ⟨_, hready', fun text hidle => Eq.symm ?_⟩
  exact highlight_eq_of_idle rfl rfl rfl rfl hidle

end Grammars

namespace Highlighter

/-- Texts in double quotes, and numbers. -/
def quotesBeforeNumbers : Grammar where
  name := "quotes before numbers"
  keywords := ⟨"[a-z]+", [⟨.keyword, ["if"]⟩]⟩
  rules := [.region ⟨.string, "\"", "\"", none⟩, .pattern ⟨.number, ["[0-9]+"]⟩]
  shape := .legacy

/-- A rule that begins in other texts, and one of whose variants matches the empty text everywhere,
is put in between. -/
theorem highlight_of_inserted_idle_between :
    ∃ h compiled h', ofGrammar Pattern.ofString? quotesBeforeNumbers = .ok h ∧
      Rule.compile Pattern.ofString? (.pattern ⟨.builtIn, ["z*", "num\\b"]⟩) = .ok compiled ∧
      ofGrammar Pattern.ofString? { quotesBeforeNumbers with
        rules := [.region ⟨.string, "\"", "\"", none⟩, .pattern ⟨.builtIn, ["z*", "num\\b"]⟩,
          .pattern ⟨.number, ["[0-9]+"]⟩] } = .ok h' ∧
      compiled.IsIdleIn "if 1 \"é\"" ∧
      h'.highlight "if 1 \"é\"" = h.highlight "if 1 \"é\"" := by
  obtain ⟨h, hready⟩ : ∃ h, ofGrammar Pattern.ofString? quotesBeforeNumbers = .ok h := ⟨_, rfl⟩
  obtain ⟨compiled, hrule, hidle⟩ :
      ∃ compiled,
        Rule.compile Pattern.ofString? (.pattern ⟨.builtIn, ["z*", "num\\b"]⟩) = .ok compiled ∧
        compiled.IsIdleIn "if 1 \"é\"" :=
    ⟨_, rfl, by unfold CompiledRule.IsIdleIn; decide +kernel⟩
  have hrules : quotesBeforeNumbers.rules = [.region ⟨.string, "\"", "\"", none⟩] ++
      [.pattern ⟨.number, ["[0-9]+"]⟩] := rfl
  obtain ⟨h', hready', halike⟩ :=
    highlight_of_inserted_idle Pattern.ofString? quotesBeforeNumbers hrules hready hrule
  exact ⟨h, compiled, h', hready, hrule, hready', hidle, halike _ hidle⟩

end Highlighter

end CodeTint
