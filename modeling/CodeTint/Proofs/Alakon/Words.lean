import CodeTint.Proofs.Alakon.Begin
import CodeTint.Proofs.Highlight.Pieces
import CodeTint.Proofs.Highlight.Words

/-!
# Words of an Alakon text

A run of word characters that no string and no number overlaps lies in one gap, since the scan
leaves a gap only at a token or at a quote (`exists_gap_holding`). As the gap does not cut the run,
and words do not depend on what stands around them, the part of the run from its first letter on is
the only token in it (`Alakon.exists_words`). A text that is an identifier is calm, as digits behind
a word character begin no number.
-/

namespace CodeTint

namespace Alakon

variable {options : AlakonOptions} {text : String} {front run back : List Char} {span : Span}

/-! ## Keywords and built-ins -/

theorem mem_identifiers_of_mem_highlight (hspan : span ∈ (highlighter options).highlight text)
    (hcategory : span.category = some .keyword ∨ span.category = some .builtIn) :
    (span.text text.toList).toList ∈ identifiers ∧
      span.category = wordCategory options (span.text text.toList) := by
  obtain ⟨category, hsome, hstring, hnumber⟩ :
      ∃ category, span.category = some category ∧ category ≠ .string ∧ category ≠ .number := by
    rcases hcategory with hcategory | hcategory
    · exact ⟨.keyword, hcategory, nofun, nofun⟩
    · exact ⟨.builtIn, hcategory, nofun, nofun⟩
  obtain ⟨pieces, hfollow, haccounts, hspans, -⟩ := (highlighter options).exists_pieces text
  rw [hspans] at hspan
  rcases Highlighter.exists_piece_of_mem_joinSpans hfollow hspan hsome with
    ⟨s, hs, -⟩ | ⟨gap, word, hgap, hword, rfl⟩
  · -- A token of a rule is a string or a number.
    obtain ⟨rule, hrule, htoken⟩ := haccounts _ hs
    rcases List.mem_pair.mp hrule with rfl | rfl
    · exact absurd (of_hasToken_stringRegion htoken).1 hstring
    · cases htoken
      exact absurd rfl hnumber
  · obtain ⟨hstart, hle, -⟩ := hfollow.bounds hgap
    obtain ⟨taken, rest, hrest, htaken, hstop⟩ := exists_of_takes_identifier hword.takes
    have htext : word.text = taken := by rw [Stretch.text, hstop, Cursor.textTo_pass hrest]
    rw [Cursor.span_text_eq_of_alone hstart hle hword.within hword.takes.start_lt_stop.le,
      String.toList_ofList, htext]
    refine ⟨htaken, ?_⟩
    rw [← (isHighlighter_highlighter options).classifyWord_eq, ← htext, hword.classified]

/-! ## Runs of word characters -/

/-- The span of the part of the run from its first letter on. -/
def spanOfRun (options : AlakonOptions) (front run : List Char) : Span :=
  .covering (wordCategory options (String.ofList (fromLetter run))) (front ++ beforeLetter run)
    (fromLetter run)

theorem wordSpan_eq_spanOfRun (options : AlakonOptions) (front run : List Char) :
    wordSpan options (byteSize (front ++ beforeLetter run)) (fromLetter run) =
      [spanOfRun options front run].filter Span.isToken := by
  rw [wordSpan, spanOfRun, Span.covering, byteSize_append (front ++ beforeLetter run)]

section Run

variable (hrun : IsMaximalRun isAsciiWord text.toList front run back)
  (hapart : ∀ span ∈ (highlighter options).highlight text,
    span.category = some .string ∨ span.category = some .number → ¬span.Overlaps front run)

include hrun hapart

/-- A run that no string and no number overlaps lies in a gap. -/
theorem exists_gap_holding :
    ∃ c, (highlighter options).Visits (.atStart text.toList 0) c ∧
      c ≤ .between front (run ++ back) ∧
      .between (front ++ run) back ≤ (highlighter options).gapEnd c := by
  have htext : text.toList = front ++ (run ++ back) := by rw [hrun.text_eq, List.append_assoc]
  have hlt := Cursor.between_lt front back hrun.ne_nil
  have hword : ∀ place : Cursor, .between front (run ++ back) ≤ place →
      place < .between (front ++ run) back → place.rest.head?.any isAsciiWord := by
    intro place hle hplace
    rw [← Cursor.between_pass] at hplace
    exact Cursor.any_head?_of_lt_pass hrun.all rfl hle hplace
  have hne : ∀ place : Cursor, place.rest.head?.any isAsciiWord →
      place.rest ≠ [] ∧ place.rest.head? ≠ some '"' := by
    intro place hplace
    refine ⟨fun hnil => ?_, fun hquote => ?_⟩
    · rw [hnil] at hplace
      cases hplace
    · rw [hquote] at hplace
      cases hplace
  obtain ⟨c, hvisits, hcd, hnext⟩ := (highlighter options).exists_visits
    (Cursor.atStart_le_between htext) (hne _ (hword _ (le_refl _) hlt)).1
  have hgap := (highlighter options).le_gapEnd c
  refine ⟨c, hvisits, hcd, (Cursor.lt_or_le hgap (hcd.trans hlt.le)).resolve_left fun hend => ?_⟩
  -- If the gap ended before the run does, a place of the run would lie in a token.
  obtain ⟨place, hle, hplace, hgapEnd, hplaceNext⟩ : ∃ place : Cursor,
      .between front (run ++ back) ≤ place ∧ place < .between (front ++ run) back ∧
      (highlighter options).gapEnd c ≤ place ∧ place < (highlighter options).nextPlace c := by
    rcases Cursor.lt_or_le hgap hcd with hbefore | hwithin
    · exact ⟨_, le_refl _, hlt, hbefore.le, hnext⟩
    · exact ⟨_, hwithin, hend, le_refl _,
        Highlighter.gapEnd_lt_nextPlace (hne _ (hword _ hwithin hend)).1⟩
  obtain ⟨s, htoken, hstart, hstop⟩ :=
    exists_token_of_gapEnd_le hvisits hgapEnd hplaceNext (hne _ (hword _ hle hplace)).2
  have hoverlaps : ∀ category,
      (⟨category, s.start.offset, s.stop.offset⟩ : Span).Overlaps front run := fun category =>
    ⟨(Cursor.lt_iff.mp (hstart.trans_lt hplace)).2, (Cursor.lt_iff.mp (hle.trans_lt hstop)).2⟩
  cases htoken with
  | string mem _ _ => exact hapart _ mem (.inl rfl) (hoverlaps _)
  | number mem _ _ => exact hapart _ mem (.inr rfl) (hoverlaps _)

/-- The tokens of the text are those before the run, the word of the run, and those behind it. -/
theorem exists_tokensFrom_eq :
    ∃ before behind, (highlighter options).tokensFrom (.atStart text.toList 0) =
        before ++ (wordSpan options (byteSize (front ++ beforeLetter run)) (fromLetter run) ++
          behind) ∧
      (∀ token ∈ before, token.stop ≤ byteSize front) ∧
      ∀ token ∈ behind, byteSize (front ++ run) ≤ token.start := by
  obtain ⟨c, hvisits, hcd, hend⟩ := exists_gap_holding hrun hapart
  obtain ⟨before, htokens, hbefore⟩ := hvisits.tokensFrom_eq
  obtain ⟨behind, hgap, hbehind⟩ := (highlighter options).tokensFrom_eq_wordsFrom_append c
  have hsize : c.offset + byteSize (c.textTo (.between front (run ++ back))) = byteSize front :=
    (Cursor.offset_eq_add_byteSize_textTo hcd).symm
  have hoffset : ∀ part, c.offset + byteSize (c.textTo (.between front (run ++ back)) ++ part) =
      byteSize (front ++ part) := fun part => by
    rw [byteSize_append, byteSize_append, ← Nat.add_assoc, hsize]
  -- The gap does not cut the run.
  have hwords : (highlighter options).wordsFrom (c.alone ((highlighter options).gapEnd c)) =
      wordSpans options c.offset (c.textTo (.between front (run ++ back))) ++
        (wordSpan options (byteSize (front ++ beforeLetter run)) (fromLetter run) ++
          wordSpans options (byteSize (front ++ run))
            ((Cursor.between (front ++ run) back).textTo ((highlighter options).gapEnd c))) := by
    rw [wordsFrom_eq_wordSpans, ← hoffset, ← hoffset]
    exact wordSpans_eq_of_isMaximalRun (Cursor.isMaximalRun_textTo hrun hcd hend)
  rw [hgap, hwords, List.append_assoc, List.append_assoc, ← List.append_assoc before] at htokens
  refine ⟨_, _, htokens, fun token htoken => ?_, fun token htoken => ?_⟩
  · rcases List.mem_append.mp htoken with htoken | htoken
    · exact (hbefore token htoken).trans (hsize ▸ Nat.le_add_right _ _)
    · exact hsize ▸ (bounds_of_mem_wordSpans htoken).2
  · rcases List.mem_append.mp htoken with htoken | htoken
    · exact (bounds_of_mem_wordSpans htoken).1
    · exact (Cursor.offset_le hend).trans (hbehind token htoken)

/-- The part of such a run from its first letter on is a token if it has a category, and everything
else in the run is plain. -/
theorem word_of_isMaximalRun :
    (fromLetter run ≠ [] → (spanOfRun options front run).category.isSome →
      spanOfRun options front run ∈ (highlighter options).highlight text) ∧
    ∀ span ∈ (highlighter options).highlight text, span.Overlaps front run →
      span.category = none ∨ fromLetter run ≠ [] ∧ span = spanOfRun options front run := by
  obtain ⟨before, behind, htokens, hbefore, hbehind⟩ := exists_tokensFrom_eq hrun hapart
  rw [wordSpan_eq_spanOfRun] at htokens
  constructor
  · intro hne hsome
    obtain ⟨category, hcategory⟩ := Option.isSome_iff_exists.mp hsome
    rw [Highlighter.mem_highlight_iff hcategory, htokens]
    have htoken : (spanOfRun options front run).isToken :=
      Span.isToken_iff.mpr ⟨hsome, (Span.covering_start_lt_stop _ _ hne).ne⟩
    exact List.mem_append_right _ (List.mem_append_left _
      (List.mem_filter.mpr ⟨List.mem_singleton.mpr rfl, htoken⟩))
  · intro span hspan hoverlaps
    cases hcategory : span.category with
    | none => exact .inl rfl
    | some category =>
        right
        rw [Highlighter.mem_highlight_iff hcategory, htokens] at hspan
        rcases List.mem_append.mp hspan with hspan | hspan
        · exact absurd hoverlaps.2 (Nat.not_lt.mpr (hbefore span hspan))
        rcases List.mem_append.mp hspan with hspan | hspan
        · obtain ⟨hmem, htoken⟩ := List.mem_filter.mp hspan
          obtain rfl := List.mem_singleton.mp hmem
          refine ⟨fun hnil => (Span.isToken_iff.mp htoken).2 ?_, rfl⟩
          rw [spanOfRun, Span.covering, hnil, List.append_nil]
        · exact absurd hoverlaps.1 (Nat.not_lt.mpr (hbehind span hspan))

end Run

/-! ## Texts that are identifiers -/

theorem highlight_of_mem_identifiers (hword : text.toList ∈ identifiers) :
    (highlighter options).highlight text =
      [⟨wordCategory options text, 0, text.utf8ByteSize⟩] := by
  have hsize := byteSize_toList text
  have hpos : 0 < text.utf8ByteSize := by
    obtain ⟨x, more, htext, -⟩ := exists_cons_of_mem_identifiers hword
    rw [← hsize]
    exact byteSize_pos (htext ▸ List.cons_ne_nil x more)
  have hcalm : Calm (.atStart text.toList 0) (Cursor.atStart text.toList 0).atEnd :=
    calm_of_mem_identifiers hword (List.append_nil _).symm
  have hwords : (highlighter options).tokensFrom (.atStart text.toList 0) =
      [⟨wordCategory options text, 0, text.utf8ByteSize⟩].filter Span.isToken := by
    rw [tokensFrom_of_calm_end (Cursor.le_atEnd _) hcalm rfl, Cursor.textTo_atEnd]
    show wordSpans options 0 text.toList = _
    rw [wordSpans_of_mem_identifiers hword, wordSpan, String.ofList_toList, Nat.zero_add, hsize]
  rw [Highlighter.highlight_eq_fill, hwords]
  cases wordCategory options text with
  | none => exact plainBetween_of_lt hpos
  | some category =>
      have htoken : Span.isToken ⟨some category, 0, text.utf8ByteSize⟩ :=
        Span.isToken_iff.mpr ⟨rfl, hpos.ne⟩
      rw [List.filter_cons_of_pos htoken, List.filter_nil, fill, fill, plainBetween_self,
        plainBetween_self, List.nil_append]

/-- A word has the category of the list that holds it, and that of the keywords if both do. What is
a keyword or a built-in in a text is an identifier with that category. In a run of word characters
that no string and no number overlaps the part from the first letter on is a token if it has a
category, and everything else is plain. A text that is an identifier is one span. -/
theorem exists_words (options : AlakonOptions) :
    ∃ h, Highlighter.ofGrammar Pattern.ofString? (alakon options) = .ok h ∧
      (∀ word, h.classifyWord word = wordCategory options word ∧
        (alakon options).keywords.categoryOf? word = wordCategory options word) ∧
      ∀ text : String,
        (∀ span ∈ h.highlight text,
          span.category = some .keyword ∨ span.category = some .builtIn →
            (span.text text.toList).toList ∈ identifiers ∧
              span.category = wordCategory options (span.text text.toList)) ∧
        (∀ front run back, IsMaximalRun isAsciiWord text.toList front run back →
          (∀ span ∈ h.highlight text,
            span.category = some .string ∨ span.category = some .number →
              ¬span.Overlaps front run) →
          (fromLetter run ≠ [] → (spanOfRun options front run).category.isSome →
            spanOfRun options front run ∈ h.highlight text) ∧
          ∀ span ∈ h.highlight text, span.Overlaps front run →
            span.category = none ∨ fromLetter run ≠ [] ∧ span = spanOfRun options front run) ∧
        (text.toList ∈ identifiers →
          h.highlight text = [⟨wordCategory options text, 0, text.utf8ByteSize⟩]) := by
  refine ⟨_, ofGrammar_alakon options, fun word => ?_, fun text => ⟨?_, ?_, ?_⟩⟩
  · have hword := (isHighlighter_highlighter options).classifyWord_eq word
    exact ⟨hword,
      (Highlighter.classifyWord_of_ofGrammar (ofGrammar_alakon options) word).symm.trans hword⟩
  · intro span hspan hcategory
    exact mem_identifiers_of_mem_highlight hspan hcategory
  · intro front run back hrun hapart
    exact word_of_isMaximalRun hrun hapart
  · exact highlight_of_mem_identifiers

-- Neither a quote without a partner nor the digit in front hides the word.
example : (highlighter .classic).highlight "\"_0bool" =
    [⟨none, 0, 3⟩, ⟨some .builtIn, 3, 7⟩] := by decide +kernel

end Alakon

end CodeTint
