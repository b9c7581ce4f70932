import CodeTint.Proofs.Alakon.Items
import CodeTint.Proofs.Alakon.Strings
import CodeTint.Proofs.Alakon.Words

/-!
# Tokens as texts of their own

A token is found between other text, and may be what is left where a longer match failed. Nothing of
this shows in what the token says: it is a string, a word or a number of the language by itself, and
a text that is one of these is highlighted as this one token (`highlight_of_mem_strings`,
`highlight_of_mem_plainNumbers`, `highlight_of_mem_signedNumbers`). So every token of a text remains
what it is when it is highlighted alone (`Alakon.exists_highlight_alone`).
-/

namespace CodeTint

namespace Alakon

variable {options : AlakonOptions} {text : String} {s : Stretch} {span : Span}
  {category : Category}

/-! ## Texts that are one token -/

/-- A text at whose beginning the scan takes all of it as one token is one span. -/
theorem highlight_of_tokensFrom_eq (hne : text.toList ≠ [])
    (htokens : (highlighter options).tokensFrom (.atStart text.toList 0) =
      wordSpans options 0 ((Cursor.atStart text.toList 0).textTo (.atStart text.toList 0)) ++
        ([⟨some category, 0, ((Cursor.atStart text.toList 0).pass text.toList []).offset⟩].filter
            Span.isToken ++
          (highlighter options).tokensFrom ((Cursor.atStart text.toList 0).pass text.toList []))) :
    (highlighter options).highlight text = [⟨some category, 0, text.utf8ByteSize⟩] := by
  have hsize : ((Cursor.atStart text.toList 0).pass text.toList []).offset = text.utf8ByteSize :=
    (Nat.zero_add _).trans (byteSize_toList text)
  have hpos : 0 < text.utf8ByteSize := by
    rw [← byteSize_toList]
    exact byteSize_pos hne
  have htoken : Span.isToken ⟨some category, 0, text.utf8ByteSize⟩ :=
    Span.isToken_iff.mpr ⟨rfl, hpos.ne⟩
  have hfront : (Cursor.atStart text.toList 0).textTo (.atStart text.toList 0) = [] :=
    (Cursor.textTo_eq_nil_iff (le_refl _)).mpr rfl
  have hwords : wordSpans options 0 [] = [] :=
    wordSpans_of_no_letter fun x hx => absurd hx List.not_mem_nil
  have hbehind : (highlighter options).tokensFrom
      ((Cursor.atStart text.toList 0).pass text.toList []) = [] :=
    Highlighter.tokensFrom_of_rest_eq_nil rfl
  rw [hfront, hwords, hsize, hbehind, List.filter_cons_of_pos htoken, List.filter_nil,
    List.append_nil, List.nil_append] at htokens
  rw [Highlighter.highlight_eq_fill, htokens, fill, fill, plainBetween_self, plainBetween_self,
    List.nil_append]

/-- A text in quotes with neither a quote nor a line end between them is one string. -/
theorem highlight_of_mem_strings (hstring : text.toList ∈ ItemKind.string.texts) :
    (highlighter options).highlight text = [⟨some .string, 0, text.utf8ByteSize⟩] := by
  refine highlight_of_tokensFrom_eq (fun hnil => nil_notMem_mul (nil_notMem_oneOf _)
    (hnil ▸ hstring)) ?_
  exact tokensFrom_of_string (le_refl _) (.refl _) (List.append_nil _).symm hstring

/-! ### Numbers -/

theorem highlight_of_mem_plainNumbers (hnumber : text.toList ∈ plainNumbers) :
    (highlighter options).highlight text = [⟨some .number, 0, text.utf8ByteSize⟩] := by
  have halone : StandsAlone (.atStart text.toList 0) text.toList [] :=
    ⟨(List.append_nil _).symm, hnumber, rfl, rfl⟩
  exact highlight_of_tokensFrom_eq (ne_nil_of_mem_plainNumbers hnumber)
    (halone.tokensFrom_eq (le_refl _) (.refl _))

theorem exists_kind_of_mem_signedNumbers {number : List Char} (hnumber : number ∈ signedNumbers) :
    ∃ p ∈ numberVariants .baseMode, ∃ L, TakesLongest p L ∧ IsNumberKind L ∧ number ∈ L := by
  rcases hnumber with hnumber | hnumber
  · exact ⟨hexNumber, List.mem_cons_self, _, takesLongest_hexNumber, isNumberKind_hexNumbers,
      hnumber⟩
  · exact ⟨signedNumber, List.mem_cons_of_mem _ List.mem_cons_self, _, takesLongest_signedNumber,
      isNumberKind_decimalNumbers, hnumber⟩

theorem HasEdge.atStart {before : Option Char} {number : List Char} (h : HasEdge before number) :
    HasEdge none number := by
  refine h.imp_right fun hlast => ?_
  cases hlead : (number.takeWhile (!isAsciiDigit ·)).getLast? with
  | none => rfl
  | some x =>
      rw [hlead] at hlast
      exact hlast

/-- Where a number with a sign begins it is the rule for numbers that begins, and it takes the
longest number. -/
theorem exists_earliestRule_of_isLongest (hform : options.number = .baseMode) {c : Cursor}
    {number back : List Char} (hlongest : IsLongest signedNumbers c.rest number back)
    (hedge : HasEdge c.before number) :
    ∃ index, (highlighter options).earliestRule c =
      some ⟨index, .pattern .number (numberVariants options.number), ⟨c, c.pass number back⟩⟩ := by
  obtain ⟨p, hp, L, hL, hkind, hmem⟩ := exists_kind_of_mem_signedNumbers hlongest.mem
  have hpre : number <+: c.rest := ⟨back, hlongest.text_eq.symm⟩
  obtain ⟨stop, htakes⟩ := exists_takes hL hkind hmem hpre hedge
  have hp' : p ∈ numberVariants options.number := hform ▸ hp
  obtain ⟨⟨index, rule, start, begun⟩, hbest, hrule, hstart, q, hq, htakes'⟩ :=
    exists_earliestRule_of_calm (le_refl c) (.refl c)
      (List.mem_cons_of_mem _ List.mem_cons_self) hp' htakes
  obtain rfl : start = c := hstart
  rcases List.mem_pair.mp hrule with heq | heq
  · -- No number begins with a quote.
    obtain rfl : rule = stringRegion := heq
    obtain rfl := List.mem_singleton.mp hq
    obtain ⟨rest, hrest, -⟩ := takes_quotePattern_iff.mp htakes'
    exact absurd htakes (not_takes_number_of_quote hp' (congrArg List.head? hrest))
  · obtain rfl : rule = .pattern .number (numberVariants options.number) := heq
    obtain ⟨-, hbegins⟩ := Highlighter.beginsFirst_of_earliestRule hbest
    rw [hform] at hbegins
    obtain ⟨number', back', hlongest', -, hstop⟩ := isLongest_of_beginsFirst hbegins
    obtain ⟨rfl, rfl⟩ := hlongest'.eq hlongest
    obtain rfl : begun = start.pass number' back' := hstop
    exact ⟨index, hbest⟩

theorem highlight_of_mem_signedNumbers (hform : options.number = .baseMode)
    (hnumber : text.toList ∈ signedNumbers) (hedge : HasEdge none text.toList) :
    (highlighter options).highlight text = [⟨some .number, 0, text.utf8ByteSize⟩] := by
  have hlongest : IsLongest signedNumbers (Cursor.atStart text.toList 0).rest text.toList [] :=
    ⟨(List.append_nil _).symm, hnumber, fun word _ hpre => hpre.length_le⟩
  obtain ⟨index, hbest⟩ := exists_earliestRule_of_isLongest hform hlongest hedge
  refine highlight_of_tokensFrom_eq (hnumber.elim isNumberKind_hexNumbers.ne_nil
    isNumberKind_decimalNumbers.ne_nil) ?_
  rw [Highlighter.tokensFrom_of_earliestRule hbest]
  rfl

/-! ## What tokens say -/

/-- A string is a quote, characters that a string may hold, and another quote. -/
theorem mem_strings_of_hasToken (htoken : stringRegion.HasToken category s) :
    s.start.textTo s.stop ∈ ItemKind.string.texts := by
  cases htoken with
  | @closed _ _ _ _ begin close takes closes legal =>
      obtain ⟨rest, hrest, -⟩ := takes_quotePattern_iff.mp takes
      obtain ⟨back, hback, hstop⟩ := takes_quotePattern_iff.mp closes.takes
      have hquote : ∀ {t : Stretch}, quotePattern.Takes t → t.start.textTo t.stop ∈ charOf '"' := by
        intro t ht
        obtain ⟨rest, hrest, hstop⟩ := takes_quotePattern_iff.mp ht
        have hpass : t.stop = t.start.pass ['"'] rest := hstop
        rw [hpass, Cursor.textTo_pass hrest]
        exact ⟨'"', rfl, rfl⟩
      have hbody : begin.stop.textTo close.start ∈ anyOf isStringChar := by
        intro x hx
        have hx_quote : x ≠ '"' := by
          rintro rfl
          obtain ⟨d, text, hle, hlt, htext⟩ := Cursor.exists_of_mem_textTo closes.le_start hx
          have hd : d.rest = '"' :: (text ++ close.start.rest) := by
            rw [Cursor.rest_eq_textTo_append hlt.le, htext, List.cons_append]
          have hearlier : quotePattern.Takes ⟨d, d.pass ['"'] (text ++ close.start.rest)⟩ :=
            takes_quotePattern_iff.mpr ⟨_, hd, rfl⟩
          exact absurd (closes.first _ hle hearlier) (not_le_of_gt hlt)
        have hx_line : x ≠ '\n' := by
          rintro rfl
          exact legal lineFeedPattern rfl ((occursWithin_single_iff closes.le_start).mpr hx)
        simp [isStringChar, hx_quote, hx_line]
      have hopening := takes.start_lt_stop.le
      have hclosing := closes.takes.start_lt_stop.le
      show begin.start.textTo close.stop ∈ _
      rw [← Cursor.textTo_append_textTo hopening (closes.le_start.trans hclosing),
        ← Cursor.textTo_append_textTo closes.le_start hclosing]
      exact ⟨_, hquote takes, _, ⟨_, hbody, _, hquote closes.takes, rfl⟩, rfl⟩

theorem mem_strings_of_mem_highlight (hspan : span ∈ (highlighter options).highlight text)
    (hcategory : span.category = some .string) :
    (span.text text.toList).toList ∈ ItemKind.string.texts := by
  obtain ⟨pieces, hfollow, haccounts, hspans, -⟩ := (highlighter options).exists_pieces text
  rw [hspans] at hspan
  rcases Highlighter.exists_piece_of_mem_joinSpans hfollow hspan hcategory with
    ⟨s, hs, rfl⟩ | ⟨gap, word, -, hword, -⟩
  · obtain ⟨rule, hrule, htoken⟩ := haccounts _ hs
    rcases List.mem_pair.mp hrule with rfl | rfl
    · have hstart : .atStart text.toList 0 ≤ s.start := (hfollow.bounds hs).1
      rw [Cursor.span_text_eq hstart, String.toList_ofList]
      exact mem_strings_of_hasToken htoken
    · cases htoken
  · exact absurd hword.classified
      ((isHighlighter_highlighter options).classifyWord_ne_string _)

theorem mem_plainNumbers_of_mem_highlight (hform : options.number = .singlePattern)
    (hspan : span ∈ (highlighter options).highlight text)
    (hcategory : span.category = some .number) :
    (span.text text.toList).toList ∈ plainNumbers := by
  obtain ⟨s, hs, htakes, rfl⟩ := exists_takes_plainNumber hform hspan hcategory
  obtain ⟨number, back, hrest, hnumber, -, -, hstop⟩ := exists_of_matchEnd_plainNumber htakes.ends
  rw [Cursor.span_text_eq hs, String.toList_ofList, hstop, Cursor.textTo_pass hrest]
  exact hnumber

theorem mem_signedNumbers_of_mem_highlight (hform : options.number = .baseMode)
    (hspan : span ∈ (highlighter options).highlight text)
    (hcategory : span.category = some .number) :
    (span.text text.toList).toList ∈ signedNumbers ∧
      HasEdge none (span.text text.toList).toList := by
  obtain ⟨c, s, hvisits, hbegins, rfl⟩ := exists_number_of_mem_highlight hspan hcategory
  rw [hform] at hbegins
  obtain ⟨number, back, hlongest, hedge, hstop⟩ := isLongest_of_beginsFirst hbegins
  have hs := hvisits.le.trans hbegins.exists_takes.1
  rw [Cursor.span_text_eq hs, String.toList_ofList, hstop, Cursor.textTo_pass hlongest.text_eq]
  exact ⟨hlongest.mem, hedge.atStart⟩

theorem highlight_of_number (hspan : span ∈ (highlighter options).highlight text)
    (hcategory : span.category = some .number) :
    (highlighter options).highlight (span.text text.toList) =
      [⟨some .number, 0, (span.text text.toList).utf8ByteSize⟩] := by
  cases hform : options.number with
  | baseMode =>
      obtain ⟨hnumber, hedge⟩ := mem_signedNumbers_of_mem_highlight hform hspan hcategory
      exact highlight_of_mem_signedNumbers hform hnumber hedge
  | singlePattern =>
      exact highlight_of_mem_plainNumbers (mem_plainNumbers_of_mem_highlight hform hspan hcategory)

theorem highlight_of_word (hspan : span ∈ (highlighter options).highlight text)
    (hcategory : span.category = some .keyword ∨ span.category = some .builtIn) :
    (highlighter options).highlight (span.text text.toList) =
      [⟨span.category, 0, (span.text text.toList).utf8ByteSize⟩] := by
  obtain ⟨hword, hsame⟩ := mem_identifiers_of_mem_highlight hspan hcategory
  rw [highlight_of_mem_identifiers hword, hsame]

/-- Every token of a text, highlighted as a text of its own, is one span of the same category that
covers all of it. -/
theorem exists_highlight_alone (options : AlakonOptions) :
    ∃ h, Highlighter.ofGrammar Pattern.ofString? (alakon options) = .ok h ∧
      ∀ text : String, ∀ span ∈ h.highlight text, ∀ category, span.category = some category →
        h.highlight (span.text text.toList) =
          [⟨some category, 0, (span.text text.toList).utf8ByteSize⟩] := by
  refine ⟨_, ofGrammar_alakon options, fun text span hspan category hcategory => ?_⟩
  cases category with
  | string => exact highlight_of_mem_strings (mem_strings_of_mem_highlight hspan hcategory)
  | number => exact highlight_of_number hspan hcategory
  | keyword => exact hcategory ▸ highlight_of_word hspan (.inl hcategory)
  | builtIn => exact hcategory ▸ highlight_of_word hspan (.inr hcategory)

/-- A number whose fraction is given up before a letter is a number without a letter behind it. -/
theorem exists_highlight_alone_before_letter :
    ⟨some .number, 0, 1⟩ ∈ (highlighter .extended).highlight "1.5a" ∧
      (highlighter .extended).highlight "1" = [⟨some .number, 0, 1⟩] := by
  have hmem : ⟨some .number, 0, 1⟩ ∈ (highlighter .extended).highlight "1.5a" := by
    decide +kernel
  obtain ⟨h, hread, halone⟩ := exists_highlight_alone .extended
  obtain rfl := Except.ok.inj ((ofGrammar_alakon .extended).symm.trans hread)
  exact ⟨hmem, halone "1.5a" _ hmem .number rfl⟩

end Alakon

end CodeTint
