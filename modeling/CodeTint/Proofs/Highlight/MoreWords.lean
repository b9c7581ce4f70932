import CodeTint.Proofs.Highlight.Partition
import CodeTint.Proofs.Highlight.Words

/-!
# More words

Words that a highlighter learns, without forgetting the category of any it knows, change nothing
about the rules, the gaps, and the places of words. Two scans of a text, one that knows more words
than the other, therefore give spans with the same borders, and the second one classifies some of
the spans that the first one leaves plain (`forall₂_scanFrom`). Joining hides these borders in
the first text only, since a plain span then lies in a longer one
(`exists_plain_of_mem_joinSpans`).
-/

namespace CodeTint

/-! ## Plain spans are joined -/

namespace Span

/-- The span lies between the borders of the other one. -/
def LiesIn (span other : Span) : Prop :=
  other.start ≤ span.start ∧ span.stop ≤ other.stop

theorem LiesIn.refl (span : Span) : span.LiesIn span :=
  ⟨Nat.le_refl _, Nat.le_refl _⟩

theorem LiesIn.trans {span other third : Span} (h : span.LiesIn other) (h' : other.LiesIn third) :
    span.LiesIn third :=
  ⟨h'.1.trans h.1, h.2.trans h'.2⟩

end Span

section Join

variable {spans reversed : List Span} {span plain : Span}

theorem start_le_stop_appendSpan (hspan : span.start ≤ span.stop)
    (hreversed : ∀ other ∈ reversed, other.start ≤ other.stop) :
    ∀ other ∈ appendSpan reversed span, other.start ≤ other.stop := by
  unfold appendSpan
  split
  · exact hreversed
  · split
    · obtain ⟨hfirst, hearlier⟩ := List.forall_mem_cons.mp hreversed
      split
      next hmeet =>
        exact List.forall_mem_cons.mpr
          ⟨hfirst.trans (hmeet.trans_le hspan), hearlier⟩
      next => exact List.forall_mem_cons.mpr ⟨hspan, hreversed⟩
    · exact List.forall_mem_cons.mpr ⟨hspan, hreversed⟩

theorem exists_plain_appendSpan (hspan : span.start ≤ span.stop)
    (hreversed : ∀ other ∈ reversed, other.start ≤ other.stop) (hplain : plain.category = none)
    (hlt : plain.start < plain.stop) (hmem : plain ∈ span :: reversed) :
    ∃ other ∈ appendSpan reversed span, other.category = none ∧ plain.LiesIn other := by
  unfold appendSpan
  split
  next hempty =>
    rcases List.mem_cons.mp hmem with rfl | hmem
    · exact absurd (of_decide_eq_true hempty) (Nat.ne_of_lt hlt)
    · exact ⟨plain, hmem, hplain, .refl plain⟩
  next =>
    split
    next start stop earlier hcategory =>
      split
      next hmeet =>
        -- The span and the one before it are made one, which holds both of them.
        have hle : start ≤ stop := hreversed _ List.mem_cons_self
        rcases List.mem_cons.mp hmem with rfl | hmem
        · exact ⟨_, List.mem_cons_self, rfl, hle.trans hmeet.le, Nat.le_refl _⟩
        · rcases List.mem_cons.mp hmem with rfl | hmem
          · exact ⟨_, List.mem_cons_self, rfl, Nat.le_refl _, hmeet.trans_le hspan⟩
          · exact ⟨plain, List.mem_cons_of_mem _ hmem, hplain, .refl plain⟩
      next => exact ⟨plain, hmem, hplain, .refl plain⟩
    next => exact ⟨plain, hmem, hplain, .refl plain⟩

/-- What is plain before joining lies in a plain span afterwards. -/
theorem exists_plain_of_mem_joinSpans (hspans : ∀ other ∈ spans, other.start ≤ other.stop)
    (hmem : plain ∈ spans) (hplain : plain.category = none) (hlt : plain.start < plain.stop) :
    ∃ other ∈ joinSpans spans, other.category = none ∧ plain.LiesIn other := by
  suffices hfold : ∀ reversed plain, (∀ other ∈ reversed, other.start ≤ other.stop) →
      plain.category = none → plain.start < plain.stop → plain ∈ reversed ∨ plain ∈ spans →
        ∃ other ∈ spans.foldl appendSpan reversed, other.category = none ∧ plain.LiesIn other by
    obtain ⟨other, hother, hcategory, hlies⟩ :=
      hfold [] plain (fun _ h => absurd h List.not_mem_nil) hplain hlt (.inr hmem)
    exact ⟨other, List.mem_reverse.mpr hother, hcategory, hlies⟩
  clear hmem hplain hlt
  induction spans with
  | nil =>
      intro reversed plain _ hplain _ hmem
      exact ⟨plain, hmem.resolve_right List.not_mem_nil, hplain, .refl plain⟩
  | cons span spans ih =>
      intro reversed plain hreversed hplain hlt hmem
      obtain ⟨hspan, hspans⟩ := List.forall_mem_cons.mp hspans
      have hordered := start_le_stop_appendSpan hspan hreversed
      rw [List.mem_cons, ← or_assoc, or_comm (a := plain ∈ reversed), ← List.mem_cons] at hmem
      rcases hmem with hmem | hmem
      · obtain ⟨other, hother, hcategory, hlies⟩ :=
          exists_plain_appendSpan hspan hreversed hplain hlt hmem
        have hlt' := (hlies.1.trans_lt hlt).trans_le hlies.2
        obtain ⟨last, hlast, hcategory, hlies'⟩ :=
          ih hspans _ other hordered hcategory hlt' (.inl hother)
        exact ⟨last, hlast, hcategory, hlies.trans hlies'⟩
      · exact ih hspans _ plain hordered hplain hlt (.inr hmem)

end Join

/-! ## Highlighters that know more words -/

/-- The other span has the same borders. It has the same category as well, or is one of the words
where the first one is plain. -/
inductive Span.Gains (category : Category) (words : List String) (text : List Char) :
    Span → Span → Prop
  | same (span : Span) : Gains category words text span span
  | word {start stop : Nat} (listed : Span.text ⟨some category, start, stop⟩ text ∈ words) :
      Gains category words text ⟨none, start, stop⟩ ⟨some category, start, stop⟩

section Gains

variable {category : Category} {words : List String} {text : List Char} {spans others : List Span}
  {span : Span}

theorem mem_of_forall₂_gains (h : List.Forall₂ (Span.Gains category words text) spans others)
    (hspan : span ∈ spans) (hsome : span.category.isSome) : span ∈ others := by
  induction h with
  | nil => exact hspan
  | cons hgains _ ih =>
      rcases List.mem_cons.mp hspan with rfl | hspan
      · cases hgains with
        | same => exact List.mem_cons_self
        | word => cases hsome
      · exact List.mem_cons_of_mem _ (ih hspan)

theorem mem_or_of_forall₂_gains (h : List.Forall₂ (Span.Gains category words text) spans others)
    (hspan : span ∈ others) :
    span ∈ spans ∨ span.category = some category ∧ span.text text ∈ words ∧
      ⟨none, span.start, span.stop⟩ ∈ spans := by
  induction h with
  | nil => exact .inl hspan
  | cons hgains _ ih =>
      rcases List.mem_cons.mp hspan with rfl | hspan
      · cases hgains with
        | same => exact .inl List.mem_cons_self
        | word listed => exact .inr ⟨rfl, listed, List.mem_cons_self⟩
      · refine (ih hspan).imp (List.mem_cons_of_mem _) fun ⟨hcategory, hlisted, hplain⟩ => ?_
        exact ⟨hcategory, hlisted, List.mem_cons_of_mem _ hplain⟩

end Gains

namespace Highlighter

/-- The other highlighter has the same rules and finds the same words. It gives them the categories
that they have under the first one, and one category to some words that have none there. -/
structure Learns (h h' : Highlighter) (category : Category) (words : List String) : Prop where
  rules : h'.rules = h.rules
  wordPattern : h'.wordPattern = h.wordPattern
  keeps : ∀ word, (h.classifyWord word).isSome → h'.classifyWord word = h.classifyWord word
  gains : ∀ word, h.classifyWord word = none → h'.classifyWord word =
    if word ∈ words then some category else none

namespace Learns

variable {h h' : Highlighter} {category : Category} {words : List String} {text : List Char}
  {c stop : Cursor}

theorem gains_word (hlearns : h.Learns h' category words) {gap word : Stretch}
    (hstart : .atStart text 0 ≤ gap.start) (hgap : gap.start ≤ gap.stop)
    (hwithin : gap.start.alone gap.stop ≤ word.start) (hword : word.start ≤ word.stop) :
    Span.Gains category words text
      ⟨h.classifyWord (String.ofList word.text), word.start.offset, word.stop.offset⟩
      ⟨h'.classifyWord (String.ofList word.text), word.start.offset, word.stop.offset⟩ := by
  cases hclass : h.classifyWord (String.ofList word.text) with
  | some known =>
      rw [hlearns.keeps _ (hclass ▸ rfl), hclass]
      exact .same _
  | none =>
      have hclass' := hlearns.gains _ hclass
      split at hclass'
      next hlisted =>
        rw [hclass']
        exact .word (Cursor.span_text_eq_of_alone hstart hgap hwithin hword _ ▸ hlisted)
      next =>
        rw [hclass']
        exact .same _

/-- Both highlighters cut a gap into the same spans. -/
theorem forall₂_classifyFrom (hlearns : h.Learns h' category words)
    (hstart : .atStart text 0 ≤ c) (hle : c ≤ stop) : ∀ (fuel : Nat) {d : Cursor},
      c.alone stop ≤ d → List.Forall₂ (Span.Gains category words text)
        (h.classifyFrom fuel d) (h'.classifyFrom fuel d) := by
  intro fuel
  induction fuel with
  | zero => exact fun _ => .cons (.same _) .nil
  | succ fuel ih =>
      intro d hd
      rw [classifyFrom, classifyFrom, hlearns.wordPattern]
      cases hword : h.wordPattern.findNonEmpty d with
      | none => exact .cons (.same _) .nil
      | some word =>
          obtain ⟨hdw, hlt⟩ := Pattern.findNonEmpty_range hword
          have hwithin := hd.trans hdw
          have hgains := @gains_word _ _ _ _ _ hlearns ⟨c, stop⟩ word hstart hle hwithin hlt.le
          exact .cons (.same _) (.cons hgains (ih (hwithin.trans hlt.le)))

theorem forall₂_classifyGap (hlearns : h.Learns h' category words)
    (hstart : .atStart text 0 ≤ c) (hle : c ≤ stop) :
    List.Forall₂ (Span.Gains category words text)
      (h.classifyGap (c.alone stop)) (h'.classifyGap (c.alone stop)) :=
  hlearns.forall₂_classifyFrom hstart hle _ (le_refl _)

/-- A step with the same rule goes to the same place, and cuts the text on its way into the same
spans. -/
theorem forall₂_scanPart (hlearns : h.Learns h' category words) (hstart : .atStart text 0 ≤ c)
    {best : Option Candidate} (hbest : ∀ candidate ∈ best, candidate.IsAhead c) :
    (h'.scanPart c best).next = (h.scanPart c best).next ∧
      List.Forall₂ (Span.Gains category words text) (h.scanPart c best).spans
        (h'.scanPart c best).spans := by
  cases best with
  | none =>
      have hgap := hlearns.forall₂_classifyGap hstart c.le_atEnd
      rw [Cursor.alone, Cursor.textTo_atEnd] at hgap
      exact ⟨rfl, hgap⟩
  | some candidate =>
      have hle := (hbest candidate rfl).le_start
      exact ⟨rfl, List.rel_append (hlearns.forall₂_classifyGap hstart hle)
        (List.forall₂_same.mpr fun span _ => .same span)⟩

/-- Both scans of a text remember the same, and give spans with the same borders. -/
theorem forall₂_scanFrom (hlearns : h.Learns h' category words) : ∀ (fuel : Nat)
    {watches : List Watch} {c : Cursor}, .atStart text 0 ≤ c → h.Remembers watches c →
      List.Forall₂ (Span.Gains category words text)
        (h.scanFrom fuel watches c) (h'.scanFrom fuel watches c) := by
  intro fuel
  induction fuel with
  | zero => exact fun _ _ => .nil
  | succ fuel ih =>
      intro watches c hstart hrem
      obtain ⟨hnext, hpart⟩ := hlearns.forall₂_scanPart hstart hrem.isAhead
      rw [scanFrom, scanFrom]
      split
      · exact .nil
      · have hle := hrem.covers.le
        simp only [hnext]
        exact List.rel_append hpart (ih (hstart.trans hle) (hrem.refresh hle))

/-- Every span with a category is a span of the highlighter that knows more words. What is a span
there in addition has the category, is one of the words, and lies in plain text. -/
theorem highlight_learns (hlearns : h.Learns h' category words) (text : String) :
    (∀ span ∈ h.highlight text, span.category.isSome → span ∈ h'.highlight text) ∧
      ∀ span ∈ h'.highlight text, span.category.isSome → span ∉ h.highlight text →
        span.category = some category ∧ span.text text.toList ∈ words ∧
          ∃ plain ∈ h.highlight text, plain.category = none ∧ span.LiesIn plain := by
  have hrem := Remembers.unknown h (.atStart text.toList 0)
  have hscan := hlearns.forall₂_scanFrom (text.toList.length + 1) (le_refl _) hrem
  rw [highlight, highlight, hlearns.rules]
  refine ⟨fun span hspan hsome => ?_, fun span hspan hsome hnew => ?_⟩
  · obtain ⟨known, hknown⟩ := Option.isSome_iff_exists.mp hsome
    rw [mem_joinSpans_iff hknown] at hspan ⊢
    exact ⟨mem_of_forall₂_gains hscan hspan.1 hsome, hspan.2⟩
  · obtain ⟨known, hknown⟩ := Option.isSome_iff_exists.mp hsome
    rw [mem_joinSpans_iff hknown] at hspan hnew
    obtain ⟨hcategory, hlisted, hplain⟩ := (mem_or_of_forall₂_gains hscan hspan.1).resolve_left
      fun hold => hnew ⟨hold, hspan.2⟩
    have hordered : ∀ other ∈ h.scanFrom (text.toList.length + 1)
        (h.rules.map (⟨·, .unknown⟩)) (.atStart text.toList 0), other.start ≤ other.stop := by
      intro other hother
      obtain ⟨c, d, -, hcd, -, heq⟩ :=
        (h.covers_scanFrom _ hrem (Nat.lt_succ_self _)).exists_places hother
      rw [heq]
      exact Cursor.offset_le hcd
    have hle : span.start ≤ span.stop := hordered ⟨none, span.start, span.stop⟩ hplain
    obtain ⟨plain, hmem, hnone, hlies⟩ := exists_plain_of_mem_joinSpans hordered hplain rfl
      (Nat.lt_of_le_of_ne hle hspan.2)
    exact ⟨hcategory, hlisted, plain, hmem, hnone, hlies⟩

end Learns

end Highlighter

/-! ## Grammars that list more words -/

section Add

variable {category : Category} {words : List String} {word : String}
  {read : String → Option Pattern}

/-- A word that no group lists has a category from its being added alone. -/
theorem KeywordSet.categoryOf?_add_of_eq_none {set : KeywordSet} (h : set.categoryOf? word = none) :
    (set.add category words).categoryOf? word = if word ∈ words then some category else none := by
  rw [categoryOf?_eq_none_iff] at h
  rw [add, categoryOf?]
  generalize set.groups = groups at h ⊢
  induction groups with
  | nil => by_cases hword : word ∈ words <;> simp [addToGroups, hword]
  | cons group groups ih =>
      obtain ⟨hgroup, hgroups⟩ := List.forall_mem_cons.mp h
      rw [addToGroups]
      split
      · by_cases hword : word ∈ words
        · simp [hword]
        · simpa [hword, hgroup] using hgroups
      · rw [List.find?_cons_of_neg (by simpa using hgroup)]
        exact ih hgroups

/-- The keyword set with more words lets a highlighter of the grammar learn them, if all words that
were listed before keep their category. -/
theorem Highlighter.exists_learns {grammar : Grammar} {h : Highlighter}
    (hread : ofGrammar read grammar = .ok h)
    (hkeep : ∀ group ∈ grammar.keywords.groups, ∀ word ∈ group.words,
      (grammar.keywords.add category words).categoryOf? word = grammar.keywords.categoryOf? word) :
    ∃ h', ofGrammar read { grammar with keywords := grammar.keywords.add category words } = .ok h' ∧
      h.Learns h' category words := by
  have hread' := ofGrammar_eq_map read grammar
    { grammar with keywords := grammar.keywords.add category words } rfl rfl rfl
  rw [hread] at hread'
  refine ⟨_, hread', rfl, rfl, fun word hsome => ?_, fun word hnone => ?_⟩
  · rw [classifyWord_of_ofGrammar hread] at hsome ⊢
    rw [classifyWord_of_ofGrammar hread']
    by_contra hne
    have hnone : grammar.keywords.categoryOf? word = none :=
      KeywordSet.categoryOf?_eq_none_iff.mpr fun group hgroup hword =>
        hne (hkeep group hgroup word hword)
    rw [hnone] at hsome
    cases hsome
  · rw [classifyWord_of_ofGrammar hread] at hnone
    rw [classifyWord_of_ofGrammar hread']
    exact KeywordSet.categoryOf?_add_of_eq_none hnone

/-- Words that are added to a grammar take no highlighting away, if all words that were listed
before keep their category: every span with a category stays, and every further one has the category
of the words, is one of them, and lies in what was plain. -/
theorem Highlighter.highlight_of_added_words {grammar : Grammar} {h : Highlighter}
    (hread : ofGrammar read grammar = .ok h)
    (hkeep : ∀ group ∈ grammar.keywords.groups, ∀ word ∈ group.words,
      (grammar.keywords.add category words).categoryOf? word = grammar.keywords.categoryOf? word) :
    ∃ h', ofGrammar read { grammar with keywords := grammar.keywords.add category words } = .ok h' ∧
      ∀ text,
        (∀ span ∈ h.highlight text, span.category.isSome → span ∈ h'.highlight text) ∧
        ∀ span ∈ h'.highlight text, span.category.isSome → span ∉ h.highlight text →
          span.category = some category ∧ span.text text.toList ∈ words ∧
            ∃ plain ∈ h.highlight text, plain.category = none ∧
              plain.start ≤ span.start ∧ span.stop ≤ plain.stop := by
  obtain ⟨h', hread', hlearns⟩ := exists_learns hread hkeep
  exact ⟨h', hread', hlearns.highlight_learns⟩

/-- Keywords that stand before the built-in words, and numbers. -/
def Highlighter.fewWords : Grammar where
  name := "few words"
  keywords := ⟨"[a-z]+", [⟨.keyword, ["if"]⟩, ⟨.builtIn, ["num"]⟩]⟩
  rules := [.pattern ⟨.number, ["[0-9]+"]⟩]
  shape := .legacy

/-- The added words come before the built-in words, of which they repeat none. -/
theorem Highlighter.highlight_of_added_words_before_builtIns :
    ∃ h h', ofGrammar Pattern.ofString? fewWords = .ok h ∧
      (∀ group ∈ fewWords.keywords.groups, ∀ word ∈ group.words,
        (fewWords.keywords.add .keyword ["not", "if"]).categoryOf? word =
          fewWords.keywords.categoryOf? word) ∧
      ofGrammar Pattern.ofString?
        { fewWords with keywords := fewWords.keywords.add .keyword ["not", "if"] } = .ok h' ∧
      (⟨some .builtIn, 7, 10⟩ : Span) ∈ h'.highlight "if not num 1" ∧
      (⟨some .keyword, 3, 6⟩ : Span) ∈ h'.highlight "if not num 1" ∧
      ∃ plain ∈ h.highlight "if not num 1", plain.category = none ∧ plain.start ≤ 3 ∧
        6 ≤ plain.stop := by
  obtain ⟨h, hread, hbuiltIn, hnot⟩ : ∃ h, ofGrammar Pattern.ofString? fewWords = .ok h ∧
      (⟨some .builtIn, 7, 10⟩ : Span) ∈ h.highlight "if not num 1" ∧
      (⟨some .keyword, 3, 6⟩ : Span) ∉ h.highlight "if not num 1" :=
    ⟨_, rfl, by decide +kernel, by decide +kernel⟩
  have hkeep : ∀ group ∈ fewWords.keywords.groups, ∀ word ∈ group.words,
      (fewWords.keywords.add .keyword ["not", "if"]).categoryOf? word =
        fewWords.keywords.categoryOf? word := by decide
  obtain ⟨h', hread', hadded⟩ := highlight_of_added_words hread hkeep
  have hkeyword : (⟨some .keyword, 3, 6⟩ : Span) ∈ h'.highlight "if not num 1" := by
    obtain rfl := Except.ok.inj hread'
    decide +kernel
  obtain ⟨hkept, hfurther⟩ := hadded "if not num 1"
  obtain ⟨-, -, hplain⟩ := hfurther _ hkeyword rfl hnot
  exact ⟨h, h', hread, hkeep, hread', hkept _ hbuiltIn rfl, hkeyword, hplain⟩

end Add

end CodeTint
