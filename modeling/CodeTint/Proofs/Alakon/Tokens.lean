import CodeTint.Proofs.Alakon.Patterns
import CodeTint.Proofs.Highlight.Visits
import CodeTint.Proofs.Highlight.Words
import CodeTint.Proofs.Text.Runs

/-!
# Tokens of an Alakon text

What holds of the tokens of the language in whichever form it writes its numbers. A number is what
the rule for numbers takes first from a place that the scan visits
(`exists_number_of_mem_highlight`). A place that is no quote lies in a gap, in a string or in a
number (`exists_gap_or_token`), so that a run of digits lies in a number if the rule has a match
where the run begins (`exists_number_holding`).
-/

namespace CodeTint

namespace Alakon

variable {options : AlakonOptions} {h : Highlighter} {text : String} {c d : Cursor} {s : Stretch}
  {span : Span} {category : Category}

/-! ## Categories of words -/

def wordCategory (options : AlakonOptions) (word : String) : Option Category :=
  if word ∈ options.keywords then some .keyword
  else if word ∈ options.builtIns then some .builtIn
  else none

theorem IsHighlighter.classifyWord_eq (hh : IsHighlighter options h) (word : String) :
    h.classifyWord word = wordCategory options word := by
  rw [Highlighter.classifyWord, hh.words, getElem?_wordTable, wordCategory]
  have hgroups : (alakon options).keywords.groups =
      [⟨.keyword, options.keywords⟩, ⟨.builtIn, options.builtIns⟩] := rfl
  rw [hgroups]
  by_cases hkeyword : word ∈ options.keywords
  · simp [hkeyword]
  · by_cases hbuiltIn : word ∈ options.builtIns
    · simp [hkeyword, hbuiltIn]
    · simp [hkeyword, hbuiltIn]

theorem IsHighlighter.eq_of_classifyWord (hh : IsHighlighter options h) {word : String}
    (hword : h.classifyWord word = some category) :
    category = .keyword ∨ category = .builtIn := by
  rw [hh.classifyWord_eq, wordCategory] at hword
  split at hword
  · exact .inl (Option.some.inj hword).symm
  · split at hword
    · exact .inr (Option.some.inj hword).symm
    · cases hword

/-! ## Strings -/

theorem takes_quotePattern_iff :
    quotePattern.Takes s ↔ ∃ rest, s.start.rest = '"' :: rest ∧
      s.stop = ⟨'"' :: s.start.passed, rest, s.start.offset + 1⟩ :=
  Pattern.takes_single_iff

theorem of_hasToken_stringRegion (htoken : stringRegion.HasToken category s) :
    category = .string ∧ s.start.rest.head? = some '"' ∧ s.stop.before = some '"' := by
  cases htoken with
  | closed takes closes legal =>
      obtain ⟨rest, hrest, -⟩ := takes_quotePattern_iff.mp takes
      obtain ⟨_, -, hstop⟩ := takes_quotePattern_iff.mp closes.takes
      refine ⟨rfl, ?_, ?_⟩
      · rw [hrest]
        rfl
      · show Cursor.before _ = _
        rw [hstop]
        rfl

/-- The opening that a rejected string leaves is a quote. -/
theorem takes_of_rejects {rule : CompiledRule} (hrule : rule ∈ (highlighter options).rules)
    (hrejects : rule.Rejects s) : quotePattern.Takes s := by
  rcases List.mem_pair.mp hrule with rfl | rfl
  · cases hrejects with
    | unclosed takes _ => exact takes
    | illegal takes _ _ => exact takes
  · cases hrejects

/-! ## Places and tokens -/

/-- The stretch is a token of the text. -/
inductive IsTokenOf (options : AlakonOptions) (text : String) (s : Stretch) : Prop
  | string
      (mem : ⟨some .string, s.start.offset, s.stop.offset⟩ ∈ (highlighter options).highlight text)
      (start_rest : s.start.rest.head? = some '"') (stop_before : s.stop.before = some '"')
  | number {p : Pattern}
      (mem : ⟨some .number, s.start.offset, s.stop.offset⟩ ∈ (highlighter options).highlight text)
      (variant : p ∈ numberVariants options.number) (takes : p.Takes s)

/-- Behind a gap lies a token, unless there is a quote. -/
theorem exists_token_of_gapEnd_le
    (hvisits : (highlighter options).Visits (.atStart text.toList 0) c)
    (hle : (highlighter options).gapEnd c ≤ d) (hlt : d < (highlighter options).nextPlace c)
    (hquote : d.rest.head? ≠ some '"') :
    ∃ s, IsTokenOf options text s ∧ s.start ≤ d ∧ d < s.stop := by
  obtain ⟨rule, hrule, s, hstart, hstop, ⟨category, htoken, hmem⟩ | hrejects⟩ :=
    hvisits.token_or_rejects hle hlt
  · refine ⟨s, ?_, hstart, hstop⟩
    rcases List.mem_pair.mp hrule with rfl | rfl
    · obtain ⟨rfl, hrest, hbefore⟩ := of_hasToken_stringRegion htoken
      exact .string hmem hrest hbefore
    · cases htoken with
      | variant hp takes => exact .number hmem hp takes
  · -- A quote is one character, so that there is no other place in it than the one before it.
    obtain ⟨rest, hrest, hstop'⟩ := takes_quotePattern_iff.mp (takes_of_rejects hrule hrejects)
    have hoffset := (Cursor.lt_iff.mp hstop).2
    rw [hstop'] at hoffset
    have hle := Cursor.offset_le hstart
    obtain rfl := Cursor.eq_of_le_of_offset_eq hstart
      (Nat.le_antisymm hle (Nat.lt_succ_iff.mp hoffset))
    rw [hrest] at hquote
    exact absurd rfl hquote

/-- A place lies in a gap or in a token, unless there is a quote. -/
theorem exists_gap_or_token (options : AlakonOptions) (hd : .atStart text.toList 0 ≤ d)
    (hrest : d.rest ≠ []) (hquote : d.rest.head? ≠ some '"') :
    ∃ c, (highlighter options).Visits (.atStart text.toList 0) c ∧ c ≤ d ∧
      (d < (highlighter options).gapEnd c ∨
        ∃ s, IsTokenOf options text s ∧ s.start ≤ d ∧ d < s.stop) := by
  obtain ⟨c, hvisits, hcd, hlt⟩ := (highlighter options).exists_visits hd hrest
  refine ⟨c, hvisits, hcd, ?_⟩
  rcases Cursor.lt_or_le hcd ((highlighter options).le_gapEnd c) with hgap | hle
  · exact .inl hgap
  · exact .inr (exists_token_of_gapEnd_le hvisits hle hlt hquote)

/-- A number is what the rule for numbers takes first from a place that the scan visits. -/
theorem exists_number_of_mem_highlight (hspan : span ∈ (highlighter options).highlight text)
    (hcategory : span.category = some .number) :
    ∃ c s, (highlighter options).Visits (.atStart text.toList 0) c ∧
      (CompiledRule.pattern .number (numberVariants options.number)).BeginsFirst c s ∧
      span = ⟨some .number, s.start.offset, s.stop.offset⟩ := by
  have hword : ∀ word, (highlighter options).classifyWord word ≠ some .number := by
    intro word hword
    rcases (isHighlighter_highlighter options).eq_of_classifyWord hword with heq | heq <;> cases heq
  obtain ⟨c, candidate, hvisits, hbest, htoken⟩ :=
    Highlighter.exists_candidate_of_mem_highlight hspan hcategory hword
  obtain ⟨hrule, hbegins⟩ := Highlighter.beginsFirst_of_earliestRule hbest
  rcases List.mem_pair.mp hrule with hrule | hrule
  · -- What the rule for strings leaves has another category or none.
    rw [hrule] at hbegins htoken
    rcases CompiledRule.take_spec hbegins.exists_takes.2 with
      ⟨category, stop, -, hstring, htake⟩ | ⟨-, htake⟩
    · obtain ⟨rfl, -⟩ := of_hasToken_stringRegion hstring
      rw [htake, List.mem_singleton] at htoken
      rw [htoken] at hcategory
      cases hcategory
    · rw [htake, List.mem_singleton] at htoken
      rw [htoken] at hcategory
      cases hcategory
  · rw [hrule] at hbegins htoken
    exact ⟨c, candidate.begin, hvisits, hbegins, List.mem_singleton.mp htoken⟩

/-! ## Runs of digits -/

/-- A run of digits lies in a number if it lies in no string, the rule for numbers has a match where
the run begins, and no number ends before a digit. -/
theorem exists_number_holding {front run back : List Char}
    (hrun : IsMaximalRun isAsciiDigit text.toList front run back)
    (hstring : ∀ span ∈ (highlighter options).highlight text, span.category = some .string →
      ¬span.Holds front run)
    (htakes : ∃ p ∈ numberVariants options.number, ∃ stop,
      p.Takes ⟨.between front (run ++ back), stop⟩)
    (hstop : ∀ p ∈ numberVariants options.number, ∀ s, p.Takes s →
      s.stop.rest.head?.any isAsciiDigit = false) :
    ∃ span ∈ (highlighter options).highlight text, span.category = some .number ∧
      span.Holds front run := by
  have htext : text.toList = front ++ (run ++ back) := by rw [hrun.text_eq, List.append_assoc]
  have hd := Cursor.atStart_le_between htext
  obtain ⟨x, run', hcons⟩ := List.exists_cons_of_ne_nil hrun.ne_nil
  have hx : isAsciiDigit x := hrun.all x (hcons ▸ List.mem_cons_self)
  have hquote : (run ++ back).head? ≠ some '"' := by
    rw [hcons]
    intro heq
    rw [Option.some.inj heq] at hx
    cases hx
  -- What holds the beginning of the run holds all of it.
  have hholds : ∀ s : Stretch, s.start ≤ .between front (run ++ back) →
      (Cursor.between front (run ++ back)).pass run back ≤ s.stop → ∀ category,
        (⟨category, s.start.offset, s.stop.offset⟩ : Span).Holds front run := by
    intro s hstart hle category
    rw [Cursor.between_pass] at hle
    exact ⟨Cursor.offset_le hstart, Cursor.offset_le hle⟩
  have hne : (Cursor.between front (run ++ back)).rest ≠ [] := by simp [Cursor.between, hcons]
  obtain ⟨c, -, hcd, hplace⟩ := exists_gap_or_token options hd hne hquote
  rcases hplace with hgap | ⟨s, htoken, hstart, hlt⟩
  · obtain ⟨p, hp, stop, htakes⟩ := htakes
    have hrule : CompiledRule.pattern .number (numberVariants options.number) ∈
        (highlighter options).rules := List.mem_cons_of_mem _ List.mem_cons_self
    exact absurd htakes (Highlighter.not_takes_of_lt_gapEnd hrule hp hcd hgap)
  · cases htoken with
    | string mem _ hbefore =>
        have hquoted : s.stop.before.any isAsciiDigit = false := by
          rw [hbefore]
          rfl
        have hle := Cursor.pass_le_of_before hrun.all rfl hlt hquoted
        exact absurd (hholds s hstart hle _) (hstring _ mem rfl)
    | number mem hp takes =>
        have hle := Cursor.pass_le_of_rest hrun.all rfl hlt.le (hstop _ hp _ takes)
        exact ⟨_, mem, rfl, hholds s hstart hle _⟩

end Alakon

end CodeTint
