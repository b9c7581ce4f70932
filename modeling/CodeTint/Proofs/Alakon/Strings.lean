import CodeTint.Proofs.Alakon.Tokens
import CodeTint.Proofs.Highlight.Pieces
import CodeTint.Proofs.Text.Lines

/-!
# Strings of an Alakon text

The strings of a text are the double quotes of its lines, two by two: on every line the first one
and the second, the third and the fourth, and so on. A last one without a partner is plain
(`Alakon.exists_strings_eq`). This is shown for a line, on which the scan goes from quote to quote
(`IsHighlighter.strings_eq`), and carried to the text as what is highlighted in it is what is
highlighted in its lines.
-/

namespace CodeTint

/-! ## Double quotes of a text

Where the double quotes of a text are (`Cursor.quotes`), line by line (`quotesFrom_eq_flatMap`), and
which of them belong together if they are taken two by two (`pairUp`). -/

/-! ### Offsets of quotes -/

/-- The offsets of the double quotes in a text that begins at the given offset. -/
def quotesFrom : (offset : Nat) → (text : List Char) → List Nat
  | _, [] => []
  | offset, x :: text =>
    if x = '"' then offset :: quotesFrom (offset + x.utf8Size) text
    else quotesFrom (offset + x.utf8Size) text

/-- The offsets of the double quotes from a place on. -/
def Cursor.quotes (c : Cursor) : List Nat :=
  quotesFrom c.offset c.rest

theorem quotesFrom_append (a b : List Char) (offset : Nat) :
    quotesFrom offset (a ++ b) = quotesFrom offset a ++ quotesFrom (offset + byteSize a) b := by
  induction a generalizing offset with
  | nil => rfl
  | cons x a ih =>
      rw [List.cons_append, quotesFrom, quotesFrom, ih, byteSize_cons, Nat.add_assoc]
      split <;> rfl

theorem quotesFrom_of_not_mem {text : List Char} (h : '"' ∉ text) (offset : Nat) :
    quotesFrom offset text = [] := by
  induction text generalizing offset with
  | nil => rfl
  | cons x text ih =>
      rw [List.mem_cons, not_or] at h
      rw [quotesFrom, if_neg (Ne.symm h.1), ih h.2]

theorem le_of_mem_quotesFrom {text : List Char} {offset quote : Nat}
    (h : quote ∈ quotesFrom offset text) : offset ≤ quote := by
  induction text generalizing offset with
  | nil => exact absurd h List.not_mem_nil
  | cons x text ih =>
      rw [quotesFrom] at h
      split at h
      · rcases List.mem_cons.mp h with rfl | h
        · exact Nat.le_refl _
        · exact Nat.le_trans (Nat.le_add_right _ _) (ih h)
      · exact Nat.le_trans (Nat.le_add_right _ _) (ih h)

theorem pairwise_quotesFrom (text : List Char) (offset : Nat) :
    (quotesFrom offset text).Pairwise (· < ·) := by
  induction text generalizing offset with
  | nil => exact .nil
  | cons x text ih =>
      rw [quotesFrom]
      split
      · refine List.pairwise_cons.mpr ⟨fun quote hquote => ?_, ih _⟩
        have := le_of_mem_quotesFrom hquote
        have := x.utf8Size_pos
        omega
      · exact ih _

/-- The quotes of a text are those of its lines. -/
theorem quotesFrom_eq_flatMap (text : List Char) (offset : Nat) :
    quotesFrom offset text = (linesFrom offset (text.splitOn '\n')).flatMap Cursor.quotes := by
  induction text using lines_induction '\n' generalizing offset with
  | last line hnot =>
      rw [List.splitOn_eq_singleton hnot]
      exact (List.append_nil _).symm
  | cons line more hnot ih =>
      rw [List.splitOn_append_cons_self_of_not_mem hnot, quotesFrom_append, quotesFrom,
        if_neg (by decide), show ('\n').utf8Size = 1 from rfl, ih]
      rfl

namespace Cursor

variable {c d : Cursor}

theorem exists_of_mem_quotes {quote : Nat} (h : quote ∈ c.quotes) :
    ∃ d rest, c ≤ d ∧ d.rest = '"' :: rest ∧ d.offset = quote := by
  obtain ⟨passed, text, offset⟩ := c
  rw [quotes] at h
  induction text generalizing passed offset with
  | nil => exact absurd h List.not_mem_nil
  | cons x text ih =>
      have hbehind : quote ∈ quotesFrom (offset + x.utf8Size) text →
          ∃ d rest, (⟨passed, x :: text, offset⟩ : Cursor) ≤ d ∧ d.rest = '"' :: rest ∧
            d.offset = quote := by
        intro h
        obtain ⟨d, rest, hle, hd⟩ := ih (x :: passed) _ h
        exact ⟨d, rest, (next_le rfl).trans hle, hd⟩
      simp only [quotesFrom] at h
      split at h
      · rename_i hx
        rcases List.mem_cons.mp h with rfl | h
        · exact ⟨_, text, le_refl _, by rw [hx], rfl⟩
        · exact hbehind h
      · exact hbehind h

theorem quotes_eq_of_le (h : c ≤ d) (hnot : '"' ∉ c.textTo d) : c.quotes = d.quotes := by
  rw [quotes, quotes, rest_eq_textTo_append h, quotesFrom_append, quotesFrom_of_not_mem hnot,
    List.nil_append, ← offset_eq_add_byteSize_textTo h]

end Cursor

theorem pairwise_quotes_linesOf (text : String) :
    (linesOf text).Pairwise fun line line' =>
      ∀ quote ∈ line.quotes, ∀ quote' ∈ line'.quotes, quote < quote' := by
  have hpairwise := pairwise_quotesFrom text.toList 0
  rw [quotesFrom_eq_flatMap] at hpairwise
  exact (List.pairwise_flatMap.mp hpairwise).2

/-! ### Pairs -/

/-- The first with the second, the third with the fourth, and so on. -/
def pairUp : List Nat → List (Nat × Nat)
  | a :: b :: others => (a, b) :: pairUp others
  | _ => []

theorem mem_of_mem_pairUp {pair : Nat × Nat} :
    ∀ {offsets : List Nat}, pair ∈ pairUp offsets → pair.1 ∈ offsets ∧ pair.2 ∈ offsets
  | a :: b :: others, h => by
      rcases List.mem_cons.mp h with rfl | h
      · simp
      · obtain ⟨hfirst, hsecond⟩ := mem_of_mem_pairUp h
        simp [hfirst, hsecond]

/-- Of an odd number of offsets in ascending order, all pairs lie before the last. -/
theorem lt_of_mem_pairUp {pair : Nat × Nat} {last : Nat} :
    ∀ {offsets : List Nat}, offsets.Pairwise (· < ·) → offsets.length % 2 = 1 →
      last ∈ offsets.getLast? → pair ∈ pairUp offsets → pair.2 < last
  | [_, _], _, hodd, _, _ => absurd hodd (by simp)
  | a :: b :: c :: others, hpairwise, hodd, hlast, hpair => by
      have hlast : last ∈ (c :: others).getLast? := by
        rwa [List.getLast?_cons_cons, List.getLast?_cons_cons] at hlast
      have hpairwise := (List.pairwise_cons.mp hpairwise).2
      obtain ⟨hb, hothers⟩ := List.pairwise_cons.mp hpairwise
      rcases List.mem_cons.mp hpair with rfl | hpair
      · exact hb last (List.mem_of_getLast? hlast)
      · refine lt_of_mem_pairUp hothers ?_ hlast hpair
        simp only [List.length_cons] at hodd ⊢
        omega

namespace Alakon

variable {options : AlakonOptions} {h : Highlighter} {c e : Cursor}

/-! ## Where quotes are found -/

theorem quotes_of_takes {s : Stretch} (hs : quotePattern.Takes s) :
    s.start.quotes = s.start.offset :: s.stop.quotes ∧ s.stop.offset = s.start.offset + 1 := by
  obtain ⟨rest, hrest, hstop⟩ := takes_quotePattern_iff.mp hs
  rw [hstop, Cursor.quotes, hrest]
  exact ⟨rfl, rfl⟩

theorem quotes_eq_of_not_takes (hle : c ≤ e)
    (hnone : ∀ t : Stretch, c ≤ t.start → t.start < e → ¬quotePattern.Takes t) :
    c.quotes = e.quotes := by
  refine Cursor.quotes_eq_of_le hle fun hmem => ?_
  obtain ⟨d, text, hcd, hde, htext⟩ := Cursor.exists_of_mem_textTo hle hmem
  have hrest : d.rest = '"' :: (text ++ e.rest) := by
    rw [Cursor.rest_eq_textTo_append hde.le, htext, List.cons_append]
  exact hnone ⟨d, ⟨'"' :: d.passed, text ++ e.rest, d.offset + 1⟩⟩ hcd hde
    (takes_quotePattern_iff.mpr ⟨_, hrest, rfl⟩)

theorem quotes_eq_nil_of_not_takes
    (hnone : ∀ t : Stretch, c ≤ t.start → ¬quotePattern.Takes t) : c.quotes = [] :=
  quotes_eq_of_not_takes c.le_atEnd fun t hct _ => hnone t hct

/-! ## Strings of a line -/

theorem IsHighlighter.classifyWord_ne_string (hh : IsHighlighter options h) (word : String) :
    h.classifyWord word ≠ some .string := by
  intro hword
  rcases hh.eq_of_classifyWord hword with heq | heq <;> cases heq

def stringSpan (pair : Nat × Nat) : Span :=
  ⟨some .string, pair.1, pair.2 + 1⟩

theorem IsHighlighter.filter_wordsFrom (hh : IsHighlighter options h) (hle : c ≤ e) :
    (h.wordsFrom (c.alone e)).filter (·.category = some .string) = [] := by
  refine List.filter_eq_nil_iff.mpr fun span hspan hcategory => ?_
  obtain ⟨word, hword, -⟩ := (Highlighter.classifyGap_spec hle).2 span
    (List.mem_of_mem_filter hspan) .string (of_decide_eq_true hcategory)
  exact hh.classifyWord_ne_string _ hword.classified

/-- What a rule does to the quotes of the line: it takes the first two for a string, passes one that
is the last, or leaves all of them for later. -/
theorem IsHighlighter.strings_take (hh : IsHighlighter options h) {rule : CompiledRule}
    (hrule : rule ∈ h.rules) {begin : Stretch} (hbegin : ∃ p ∈ rule.beginPatterns, p.Takes begin)
    (hnot : '\n' ∉ begin.start.rest) :
    (pairUp begin.start.quotes).map stringSpan =
      ((rule.take begin).spans.filter Span.isToken).filter (·.category = some .string) ++
        (pairUp (rule.take begin).next.quotes).map stringSpan := by
  obtain ⟨variants, hrules, havoids⟩ := hh.exists_rules
  obtain ⟨p, hp, htakes⟩ := hbegin
  rw [hrules] at hrule
  rcases List.mem_pair.mp hrule with rfl | rfl
  · obtain rfl : p = quotePattern := List.mem_singleton.mp hp
    obtain ⟨hquotes, -⟩ := quotes_of_takes htakes
    cases hclose : quotePattern.findNonEmpty begin.stop with
    | none =>
        -- A quote that no other one follows is the last of the line.
        have hnone := Pattern.findNonEmpty_eq_none_iff.mp hclose
        rw [CompiledRule.take_eq_rejected fun close hfirst =>
            absurd hfirst.takes (hnone close hfirst.le_start),
          hquotes, quotes_eq_nil_of_not_takes hnone]
        rfl
    | some close =>
        -- It is closed by the quote that follows it, which is on the same line.
        have hfirst := Pattern.findNonEmpty_eq_some_iff.mp hclose
        have hbody : '\n' ∉ begin.stop.textTo close.start := fun hmem =>
          hnot (Cursor.rest_subset htakes.start_lt_stop.le
            (Cursor.textTo_subset hfirst.le_start hmem))
        have hgap : begin.stop.quotes = close.start.quotes :=
          quotes_eq_of_not_takes hfirst.le_start fun t hle hlt ht =>
            absurd (hfirst.first t hle ht) (not_le_of_gt hlt)
        obtain ⟨hquotes', hoffset⟩ := quotes_of_takes hfirst.takes
        have hlt : begin.start.offset ≠ close.start.offset + 1 := by
          have := Cursor.offset_le (htakes.start_lt_stop.le.trans hfirst.le_start)
          omega
        rw [CompiledRule.take_eq_token hfirst hbody, hquotes, hgap, hquotes', hoffset, pairUp]
        simp [stringSpan, Span.isToken, Span.isEmpty, hlt]
  · have hquotes : begin.start.quotes = begin.stop.quotes :=
      Cursor.quotes_eq_of_le htakes.start_lt_stop.le ((havoids p hp).2.not_mem_text htakes)
    rw [hquotes]
    simp [CompiledRule.take]

/-- On a line the scan finds the quotes two by two. -/
theorem IsHighlighter.strings_eq (hh : IsHighlighter options h) (hnot : '\n' ∉ c.rest) :
    (h.tokensFrom c).filter (·.category = some .string) = (pairUp c.quotes).map stringSpan := by
  have := hh.leftmost
  obtain ⟨variants, hrules, -⟩ := hh.exists_rules
  have hregion : stringRegion ∈ h.rules := by
    rw [hrules]
    exact List.mem_cons_self
  induction hn : c.rest.length using Nat.strongRecOn generalizing c with
  | ind n ih =>
      cases hbest : h.earliestRule c with
      | none =>
          have hnone := Highlighter.earliestRule_eq_none_iff.mp hbest _ hregion _ List.mem_cons_self
          have hwords := hh.filter_wordsFrom c.le_atEnd
          rw [Cursor.alone, Cursor.textTo_atEnd] at hwords
          rw [Highlighter.tokensFrom_of_earliestRule_eq_none hbest, hwords,
            quotes_eq_nil_of_not_takes hnone]
          rfl
      | some candidate =>
          obtain ⟨hmem, hbegins⟩ := Highlighter.beginsFirst_of_earliestRule hbest
          obtain ⟨hle, hbegin⟩ := hbegins.exists_takes
          obtain ⟨-, hne⟩ := Highlighter.isAhead_of_earliestRule hbest
          have hgap : c.quotes = candidate.begin.start.quotes :=
            quotes_eq_of_not_takes hle
              (Highlighter.accounts_gap_of_earliestRule hbest _ hregion _ List.mem_cons_self)
          have hlt := (hle.trans_lt hne).trans_le (candidate.rule.covers_take hne).2
          have hnot' : '\n' ∉ (candidate.rule.take candidate.begin).next.rest :=
            fun hmem => hnot (Cursor.rest_subset hlt.le hmem)
          rw [Highlighter.tokensFrom_of_earliestRule hbest, List.filter_append, List.filter_append,
            hh.filter_wordsFrom hle, List.nil_append,
            ih _ (hn ▸ Cursor.rest_length_lt hlt) hnot' rfl,
            hgap, hh.strings_take hmem hbegin fun hmem => hnot (Cursor.rest_subset hle hmem)]

/-! ## Strings of a text -/

theorem IsHighlighter.strings_highlight (hh : IsHighlighter options h) (text : String) :
    (h.highlight text).filter (·.category = some .string) =
      (linesOf text).flatMap (fun line => (pairUp line.quotes).map stringSpan) := by
  have := hh.leftmost
  have hfilter : (h.highlight text).filter (·.category = some .string) =
      (h.tokensFrom (.atStart text.toList 0)).filter (·.category = some .string) := by
    rw [← Highlighter.filter_highlight, List.filter_filter]
    refine List.filter_congr fun span _ => ?_
    cases span.category <;> simp
  rw [hfilter, hh.keepsToLines.byLines_tokensFrom.eq_flatMap_linesFrom, List.filter_flatMap]
  exact List.flatMap_congr fun line hline => hh.strings_eq (not_mem_of_mem_linesOf hline)

theorem IsHighlighter.not_mem_text (hh : IsHighlighter options h) {text : String} {span : Span}
    {category : Category} (hspan : span ∈ h.highlight text)
    (hcategory : span.category = some category) (hne : category ≠ .string) :
    '"' ∉ (span.text text.toList).toList := by
  have := hh.leftmost
  obtain ⟨pieces, hfollow, haccounts, hspans, -⟩ := h.exists_pieces text
  obtain ⟨variants, hrules, havoids⟩ := hh.exists_rules
  rw [hspans] at hspan
  rcases Highlighter.exists_piece_of_mem_joinSpans hfollow hspan hcategory with
    ⟨s, hs, rfl⟩ | ⟨gap, word, hgap, hword, rfl⟩
  · obtain ⟨rule, hrule, htoken⟩ := haccounts _ hs
    rw [hrules] at hrule
    rcases List.mem_pair.mp hrule with rfl | rfl
    · cases htoken
      exact absurd rfl hne
    · cases htoken with
      | variant hp htakes =>
          have hstart : .atStart text.toList 0 ≤ s.start := (hfollow.bounds hs).1
          rw [Cursor.span_text_eq hstart, String.toList_ofList]
          exact (havoids _ hp).2.not_mem_text htakes
  · obtain ⟨hstart, hle, -⟩ := hfollow.bounds hgap
    rw [Cursor.span_text_eq_of_alone hstart hle hword.within hword.takes.start_lt_stop.le,
      String.toList_ofList]
    exact hh.wordPattern.2.not_mem_text hword.takes

/-- Every quote of a text is in a plain span or in a string. -/
theorem IsHighlighter.exists_span_of_mem_quotes (hh : IsHighlighter options h) {text : String}
    {quote : Nat} (hquote : quote ∈ (Cursor.atStart text.toList 0).quotes) :
    ∃ span ∈ h.highlight text, span.start ≤ quote ∧ quote < span.stop ∧
      (span.category = none ∨ span.category = some .string) := by
  obtain ⟨place, rest, hplace, hrest, rfl⟩ := Cursor.exists_of_mem_quotes hquote
  have hcovers := h.covers_highlight text
  have htakes : quotePattern.Takes ⟨place, ⟨'"' :: place.passed, rest, place.offset + 1⟩⟩ :=
    takes_quotePattern_iff.mpr ⟨rest, hrest, rfl⟩
  have hend := (Cursor.lt_iff.mp (htakes.start_lt_stop.trans_le
    (Cursor.le_atEnd_of_le (hplace.trans htakes.start_lt_stop.le)))).2
  obtain ⟨span, hspan, hstart, hstop⟩ := hcovers.exists_mem (Cursor.offset_le hplace) hend
  refine ⟨span, hspan, hstart, hstop, ?_⟩
  cases hcategory : span.category with
  | none => exact .inl rfl
  | some category =>
      by_contra hne
      refine hh.not_mem_text hspan hcategory (fun heq => hne (.inr (congrArg some heq))) ?_
      obtain ⟨c, d, hc, hcd, hd, heq⟩ := hcovers.exists_places hspan
      rw [heq, Cursor.span_text_eq hc, String.toList_ofList]
      rw [heq] at hstart hstop
      have hle : c ≤ place := Cursor.le_of_offset_le hc hplace hstart
      exact Cursor.mem_textTo hle (Cursor.lt_of_offset_lt hplace (hc.trans hcd) hstop) hrest

/-- No string of a text holds the last quote of a line that has an odd number of them. -/
theorem lt_start_or_stop_le_of_odd {text : String} {line line' : Cursor}
    (hline : line ∈ linesOf text) (hline' : line' ∈ linesOf text)
    (hodd : line.quotes.length % 2 = 1) {last : Nat} (hlast : last ∈ line.quotes.getLast?)
    {pair : Nat × Nat} (hpair : pair ∈ pairUp line'.quotes) :
    last < (stringSpan pair).start ∨ (stringSpan pair).stop ≤ last := by
  have hlines := List.pairwise_iff_getElem.mp (pairwise_quotes_linesOf text)
  obtain ⟨i, hi, rfl⟩ := List.mem_iff_getElem.mp hline
  obtain ⟨j, hj, rfl⟩ := List.mem_iff_getElem.mp hline'
  have hmem := List.mem_of_getLast? hlast
  obtain ⟨hfirst, hsecond⟩ := mem_of_mem_pairUp hpair
  rcases Nat.lt_trichotomy i j with hlt | rfl | hlt
  · exact .inl (hlines i j hi hj hlt last hmem pair.1 hfirst)
  · exact .inr (lt_of_mem_pairUp (pairwise_quotesFrom _ _) hodd hlast hpair)
  · exact .inr (hlines j i hj hi hlt pair.2 hsecond last hmem)

theorem IsHighlighter.exists_plain_of_odd (hh : IsHighlighter options h) {text : String}
    {line : Cursor} (hline : line ∈ linesOf text) (hodd : line.quotes.length % 2 = 1) {quote : Nat}
    (hquote : quote ∈ line.quotes.getLast?) :
    ∃ span ∈ h.highlight text, span.category = none ∧ span.start ≤ quote ∧ quote < span.stop := by
  have hmem : quote ∈ (Cursor.atStart text.toList 0).quotes := by
    rw [Cursor.quotes, quotesFrom_eq_flatMap]
    exact List.mem_flatMap.mpr ⟨line, hline, List.mem_of_getLast? hquote⟩
  obtain ⟨span, hspan, hstart, hstop, hcategory⟩ := hh.exists_span_of_mem_quotes hmem
  refine ⟨span, hspan, hcategory.resolve_right fun hstring => ?_, hstart, hstop⟩
  have hfound : span ∈ (h.highlight text).filter (·.category = some .string) :=
    List.mem_filter.mpr ⟨hspan, decide_eq_true hstring⟩
  rw [hh.strings_highlight, List.mem_flatMap] at hfound
  obtain ⟨line', hline', hfound⟩ := hfound
  obtain ⟨pair, hpair, rfl⟩ := List.mem_map.mp hfound
  rcases lt_start_or_stop_le_of_odd hline hline' hodd hquote hpair with hlt | hle
  · omega
  · omega

/-- The strings of a text are the quotes of its lines, two by two; the last quote of a line that has
an odd number of them is plain. -/
theorem exists_strings_eq (options : AlakonOptions) :
    ∃ h, Highlighter.ofGrammar Pattern.ofString? (alakon options) = .ok h ∧ ∀ text : String,
      (h.highlight text).filter (·.category = some .string) =
        (linesOf text).flatMap (fun line => (pairUp line.quotes).map stringSpan) ∧
      ∀ line ∈ linesOf text, line.quotes.length % 2 = 1 → ∀ quote ∈ line.quotes.getLast?,
        ∃ span ∈ h.highlight text, span.category = none ∧ span.start ≤ quote ∧
          quote < span.stop := by
  obtain ⟨h, hread, hh⟩ := exists_ofGrammar options
  refine ⟨h, hread, fun text => ⟨hh.strings_highlight text, ?_⟩⟩
  intro line hline hodd quote hquote
  exact hh.exists_plain_of_odd hline hodd hquote

-- The third quote does not find a partner on the next line.
example : (linesOf "\"a\" \"\n\"").flatMap (fun line => (pairUp line.quotes).map stringSpan) =
    [⟨some .string, 0, 3⟩] := by decide

end Alakon

end CodeTint
