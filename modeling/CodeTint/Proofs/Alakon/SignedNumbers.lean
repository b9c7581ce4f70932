import CodeTint.Proofs.Alakon.NumberMatches
import CodeTint.Proofs.Alakon.Tokens

/-!
# Numbers with a sign

In the form of numbers that host engines know, a number of a text is the longest one that begins
where it does, it has the sign that stands before it, and no digits are left out but those of words
(`Alakon.exists_signedNumbers`). The two patterns of the form agree where it matters: one takes the
hexadecimal numbers, the other one the decimal numbers, and where both have a match the hexadecimal
one is the longer of them.
-/

namespace CodeTint

namespace Alakon

/-- The numbers of the form, with a sign or without. -/
def signedNumbers : Language Char :=
  hexNumbers + decimalNumbers

/-! ## Kinds of numbers -/

/-- What the numbers of a kind have in common: they hold a digit, may be continued by one and be
given a sign, and do not end with the sign. -/
structure IsNumberKind (L : Language Char) : Prop where
  exists_digit : ∀ number ∈ L, ∃ x ∈ number, isAsciiDigit x
  append_digit : ∀ number ∈ L, ∀ x, isAsciiDigit x → number ++ [x] ∈ L
  cons_minus : ∀ number ∈ L, number.head? ≠ some '-' → '-' :: number ∈ L
  getLast?_ne : ∀ number ∈ L, number.getLast? ≠ some '-'

theorem IsNumberKind.ne_nil {L : Language Char} (hL : IsNumberKind L) {number : List Char}
    (hnumber : number ∈ L) : number ≠ [] := by
  rintro rfl
  obtain ⟨x, hx, -⟩ := hL.exists_digit _ hnumber
  exact List.not_mem_nil hx

theorem isNumberKind_of_unsigned {U : Language Char} {p : Char → Bool}
    (hdigit : ∀ u ∈ U, ∃ x ∈ u, isAsciiDigit x)
    (happend : ∀ u ∈ U, ∀ x, isAsciiDigit x → u ++ [x] ∈ U)
    (hlast : ∀ u ∈ U, ∃ x, u.getLast? = some x ∧ p x) (hp : p '-' = false) :
    IsNumberKind (minus * U) := by
  constructor
  · rintro _ ⟨sign, hsign, u, hu, rfl⟩
    obtain ⟨x, hx, hxdigit⟩ := hdigit u hu
    exact ⟨x, List.mem_append_right _ hx, hxdigit⟩
  · rintro _ ⟨sign, hsign, u, hu, rfl⟩ x hx
    exact ⟨sign, hsign, u ++ [x], happend u hu x hx, (List.append_assoc _ _ _).symm⟩
  · rintro _ ⟨sign, hsign, u, hu, rfl⟩ hhead
    rcases mem_optionally.mp hsign with rfl | ⟨x, hx, rfl⟩
    · exact ⟨['-'], .inr ⟨'-', rfl, rfl⟩, u, hu, rfl⟩
    · exact absurd (congrArg some (of_decide_eq_true hx)) hhead
  · rintro _ ⟨sign, hsign, u, hu, rfl⟩ hminus
    obtain ⟨x, hx, hpx⟩ := hlast u hu
    have heq : (sign ++ u).getLast? = some x := by rw [List.getLast?_append, hx, Option.some_or]
    rw [Option.some.inj (heq.symm.trans hminus), hp] at hpx
    cases hpx

theorem exists_getLast?_append {p : Char → Bool} {digits : List Char} (front : List Char)
    (hdigits : digits ∈ someOf p) : ∃ x, (front ++ digits).getLast? = some x ∧ p x := by
  refine ⟨digits.getLast hdigits.1, ?_, hdigits.2 _ (List.getLast_mem hdigits.1)⟩
  rw [List.getLast?_append, List.getLast?_eq_some_getLast hdigits.1, Option.some_or]

theorem append_mem_someOf {p : Char → Bool} {digits : List Char} {x : Char}
    (hdigits : digits ∈ someOf p) (hx : p x) : digits ++ [x] ∈ someOf p :=
  ⟨by simp, List.forall_mem_append.mpr ⟨hdigits.2, List.forall_mem_singleton.mpr hx⟩⟩

theorem isNumberKind_hexNumbers : IsNumberKind hexNumbers := by
  refine isNumberKind_of_unsigned (p := isHexDigit) ?_ ?_ ?_ rfl
  · rintro _ ⟨zero, ⟨x, hx, rfl⟩, digits, -, rfl⟩
    obtain rfl := of_decide_eq_true hx
    exact ⟨'0', List.mem_cons_self, rfl⟩
  · rintro _ ⟨zero, hzero, _, ⟨mark, hmark, digits, hdigits, rfl⟩, rfl⟩ x hx
    have hhex : isHexDigit x := by simp [isHexDigit, hx]
    exact ⟨zero, hzero, mark ++ (digits ++ [x]),
      Language.append_mem_mul hmark (append_mem_someOf hdigits hhex), by simp⟩
  · rintro _ ⟨zero, -, _, ⟨mark, -, digits, hdigits, rfl⟩, rfl⟩
    show ∃ x, (zero ++ (mark ++ digits)).getLast? = some x ∧ _
    rw [← List.append_assoc]
    exact exists_getLast?_append _ hdigits

theorem exists_digit_of_mem_mantissas {m : List Char} (hm : m ∈ mantissas) :
    ∃ x ∈ m, isAsciiDigit x := by
  have hsome : ∀ digits ∈ someOf isAsciiDigit, ∃ x ∈ digits, isAsciiDigit x := fun digits h =>
    ⟨digits.head h.1, List.head_mem h.1, h.2 _ (List.head_mem h.1)⟩
  rcases hm with ⟨whole, hwhole, fraction, -, rfl⟩ | ⟨point, -, digits, hdigits, rfl⟩
  · obtain ⟨x, hx, hdigit⟩ := hsome whole hwhole
    exact ⟨x, List.mem_append_left _ hx, hdigit⟩
  · obtain ⟨x, hx, hdigit⟩ := hsome digits hdigits
    exact ⟨x, List.mem_append_right _ hx, hdigit⟩

theorem append_digit_mem_mantissas {m : List Char} (hm : m ∈ mantissas) {x : Char}
    (hx : isAsciiDigit x) : m ++ [x] ∈ mantissas := by
  rcases hm with ⟨whole, hwhole, fraction, hfraction, rfl⟩ | ⟨point, hpoint, digits, hdigits, rfl⟩
  · rcases mem_optionally.mp hfraction with rfl | ⟨point, hpoint, digits, hdigits, rfl⟩
    · exact .inl ⟨whole ++ [x], append_mem_someOf hwhole hx, [], .inl rfl, by simp⟩
    · have hmore : digits ++ [x] ∈ anyOf isAsciiDigit :=
        List.forall_mem_append.mpr ⟨hdigits, List.forall_mem_singleton.mpr hx⟩
      exact .inl ⟨whole, hwhole, point ++ (digits ++ [x]),
        .inr (Language.append_mem_mul hpoint hmore), by simp⟩
  · exact .inr ⟨point, hpoint, digits ++ [x], append_mem_someOf hdigits hx, by simp⟩

theorem isNumberKind_decimalNumbers : IsNumberKind decimalNumbers := by
  refine isNumberKind_of_unsigned (p := isDigitOrPoint) ?_ ?_ ?_ rfl
  · rintro _ ⟨m, hm, exponent, -, rfl⟩
    obtain ⟨x, hx, hdigit⟩ := exists_digit_of_mem_mantissas hm
    exact ⟨x, List.mem_append_left _ hx, hdigit⟩
  · rintro _ ⟨m, hm, exponent, hexponent, rfl⟩ x hx
    rcases mem_optionally.mp hexponent with rfl | ⟨mark, hmark, digits, hdigits, rfl⟩
    · exact ⟨m ++ [x], append_digit_mem_mantissas hm hx, [], .inl rfl, by simp⟩
    · exact ⟨m, hm, mark ++ (digits ++ [x]),
        .inr (Language.append_mem_mul hmark (append_mem_someOf hdigits hx)), by simp⟩
  · rintro _ ⟨m, hm, exponent, hexponent, rfl⟩
    rcases mem_optionally.mp hexponent with rfl | ⟨mark, hmark, digits, hdigits, rfl⟩
    · have hm' : m ∈ someOf isDigitOrPoint :=
        ⟨fun h => nil_notMem_mantissas (h ▸ hm), consistsOf_mantissas m hm⟩
      show ∃ x, (m ++ []).getLast? = some x ∧ _
      rw [List.append_nil]
      exact exists_getLast?_append [] hm'
    · show ∃ x, (m ++ (mark ++ digits)).getLast? = some x ∧ _
      rw [← List.append_assoc]
      obtain ⟨x, hx, hdigit⟩ := exists_getLast?_append (m ++ mark) hdigits
      exact ⟨x, hx, by simp [isDigitOrPoint, hdigit]⟩

/-! ## Both kinds together -/

def isDecimalChar (x : Char) : Bool :=
  isDigitOrPoint x || x = '-' || x = '+' || x = 'e' || x = 'E'

theorem consistsOf_decimalNumbers : ConsistsOf isDecimalChar decimalNumbers := by
  have hdigit : ConsistsOf isDecimalChar (someOf isAsciiDigit) :=
    consistsOf_someOf fun x hx => by simp [isDecimalChar, isDigitOrPoint, hx]
  have hmantissas : ConsistsOf isDecimalChar mantissas := fun m hm x hx => by
    simp [isDecimalChar, consistsOf_mantissas m hm x hx]
  have hexponents : ConsistsOf isDecimalChar exponents :=
    ((consistsOf_eitherOf rfl rfl).mul (consistsOf_eitherOf rfl rfl).optionally).mul hdigit
  exact (consistsOf_charOf rfl).optionally.mul (hmantissas.mul hexponents.optionally)

/-- Where a hexadecimal number begins no longer decimal one does: it would go on behind the mark. -/
theorem length_le_of_mem_hexNumbers {text hex number : List Char} (hhex : hex ∈ hexNumbers)
    (hhextext : hex <+: text) (hnumber : number ∈ decimalNumbers) (htext : number <+: text) :
    number.length ≤ hex.length := by
  by_contra hlt
  have hpre := List.prefix_of_prefix_length_le hhextext htext (by omega)
  obtain ⟨sign, -, _, ⟨zero, -, _, ⟨_, ⟨mark, hmark, rfl⟩, digits, -, rfl⟩, rfl⟩, rfl⟩ := hhex
  have hmem : mark ∈ sign ++ (zero ++ ([mark] ++ digits)) := by simp
  have hdecimal := consistsOf_decimalNumbers number hnumber mark (hpre.subset hmem)
  rcases Bool.or_eq_true_iff.mp hmark with heq | heq <;>
    · rw [of_decide_eq_true heq] at hdecimal
      cases hdecimal

theorem takeWhile_append_of_exists {p : Char → Bool} {word : List Char} (more : List Char)
    (h : ∃ x ∈ word, p x = false) : (word ++ more).takeWhile p = word.takeWhile p := by
  induction word with
  | nil => simp at h
  | cons y word ih =>
      by_cases hy : p y
      · rw [List.cons_append, List.takeWhile_cons_of_pos hy, List.takeWhile_cons_of_pos hy, ih]
        obtain ⟨x, hx, hnot⟩ := h
        rcases List.mem_cons.mp hx with rfl | hx
        · rw [hy] at hnot
          cases hnot
        · exact ⟨x, hx, hnot⟩
      · rw [List.cons_append, List.takeWhile_cons_of_neg hy, List.takeWhile_cons_of_neg hy]

/-- Numbers with which the same text begins have the same first digit, and with it the same edge. -/
theorem HasEdge.of_prefix {before : Option Char} {text number other : List Char}
    (hedge : HasEdge before number) (hnumber : ∃ x ∈ number, isAsciiDigit x)
    (hother : ∃ x ∈ other, isAsciiDigit x) (htext : number <+: text) (htext' : other <+: text) :
    HasEdge before other := by
  have hnot : ∀ {word : List Char}, (∃ x ∈ word, isAsciiDigit x) →
      ∃ x ∈ word, (!isAsciiDigit x) = false := by
    rintro word ⟨x, hx, hdigit⟩
    exact ⟨x, hx, by rw [hdigit]; rfl⟩
  rcases List.prefix_or_prefix_of_prefix htext htext' with ⟨more, rfl⟩ | ⟨more, rfl⟩
  · rwa [HasEdge, takeWhile_append_of_exists more (hnot hnumber)]
  · rwa [HasEdge, takeWhile_append_of_exists more (hnot hother)] at hedge

section Matches

variable {p : Pattern} {L : Language Char} {c : Cursor} {s : Stretch}

theorem exists_takes (hp : TakesLongest p L) (hL : IsNumberKind L) {number : List Char}
    (hnumber : number ∈ L) (htext : number <+: c.rest) (hedge : HasEdge c.before number) :
    ∃ stop, p.Takes ⟨c, stop⟩ := by
  obtain ⟨taken, back, hlongest⟩ := exists_isLongest hnumber htext
  have hpre : taken <+: c.rest := ⟨back, hlongest.text_eq.symm⟩
  have hedge' := hedge.of_prefix (hL.exists_digit _ hnumber) (hL.exists_digit _ hlongest.mem)
    htext hpre
  exact ⟨c.pass taken back, (hp c _).mpr ⟨taken, back, hlongest, hedge', rfl⟩,
    c.lt_pass hlongest.text_eq (hL.ne_nil hlongest.mem)⟩

theorem exists_isLongest_of_takes (hp : TakesLongest p L) (hs : p.Takes s) :
    ∃ number back, IsLongest L s.start.rest number back ∧ HasEdge s.start.before number ∧
      s.stop = s.start.pass number back :=
  (hp _ _).mp hs.ends

theorem stop_rest_of_takes (hp : TakesLongest p L) (hL : IsNumberKind L) (hs : p.Takes s) :
    s.stop.rest.head?.any isAsciiDigit = false := by
  obtain ⟨number, back, hlongest, -, hstop⟩ := exists_isLongest_of_takes hp hs
  rw [hstop]
  by_contra hdigit
  have hback : back.head?.any isAsciiDigit := by simpa [Cursor.pass] using hdigit
  obtain ⟨x, rest, hrest, hx⟩ := exists_cons_of_any_head? hback
  have hlength := hlongest.longest _ (hL.append_digit _ hlongest.mem x hx)
    ⟨rest, by simp [hlongest.text_eq, hrest]⟩
  simp at hlength

/-- Behind a number stands its last character, which is no sign. -/
theorem stop_before_of_takes (hp : TakesLongest p L) (hL : IsNumberKind L) (hs : p.Takes s) :
    s.stop.before ≠ some '-' := by
  obtain ⟨number, back, hlongest, -, hstop⟩ := exists_isLongest_of_takes hp hs
  have hlast := hL.getLast?_ne _ hlongest.mem
  rw [List.getLast?_eq_some_getLast (hL.ne_nil hlongest.mem)] at hlast
  rwa [hstop, Cursor.before_pass, List.getLast?_eq_some_getLast (hL.ne_nil hlongest.mem),
    Option.some_or]

end Matches

theorem exists_kind {p : Pattern} (hp : p ∈ numberVariants .baseMode) :
    ∃ L, TakesLongest p L ∧ IsNumberKind L := by
  rcases List.mem_pair.mp hp with rfl | rfl
  · exact ⟨_, takesLongest_hexNumber, isNumberKind_hexNumbers⟩
  · exact ⟨_, takesLongest_signedNumber, isNumberKind_decimalNumbers⟩

/-! ## Numbers of a text -/

section Scan

variable {options : AlakonOptions} {text : String} {c : Cursor} {s : Stretch}

/-- Where the rule begins first it takes the longest number of the form. -/
theorem isLongest_of_beginsFirst
    (hbegins : (CompiledRule.pattern .number (numberVariants .baseMode)).BeginsFirst c s) :
    ∃ number back, IsLongest signedNumbers s.start.rest number back ∧
      HasEdge s.start.before number ∧ s.stop = s.start.pass number back := by
  obtain ⟨i, ⟨p, hp, htakes⟩, hfirst⟩ := hbegins
  match i, hp with
  | 0, hp =>
      obtain rfl : hexNumber = p := Option.some.inj hp
      obtain ⟨number, back, hlongest, hedge, hstop⟩ :=
        exists_isLongest_of_takes takesLongest_hexNumber htakes.takes
      refine ⟨number, back, ⟨hlongest.text_eq, .inl hlongest.mem, ?_⟩, hedge, hstop⟩
      rintro word (hword | hword) hpre
      · exact hlongest.longest word hword hpre
      · exact length_le_of_mem_hexNumbers hlongest.mem ⟨back, hlongest.text_eq.symm⟩ hword hpre
  | 1, hp =>
      obtain rfl : signedNumber = p := Option.some.inj hp
      obtain ⟨number, back, hlongest, hedge, hstop⟩ :=
        exists_isLongest_of_takes takesLongest_signedNumber htakes.takes
      refine ⟨number, back, ⟨hlongest.text_eq, .inr hlongest.mem, ?_⟩, hedge, hstop⟩
      rintro word (hword | hword) hpre
      · -- A hexadecimal number would have been taken, as its pattern is listed first.
        have hedge' := hedge.of_prefix
          (isNumberKind_decimalNumbers.exists_digit _ hlongest.mem)
          (isNumberKind_hexNumbers.exists_digit _ hword) ⟨back, hlongest.text_eq.symm⟩ hpre
        obtain ⟨stop, hhex⟩ := exists_takes takesLongest_hexNumber isNumberKind_hexNumbers hword
          hpre hedge'
        cases hfind : hexNumber.findNonEmpty c with
        | none => exact absurd hhex (Pattern.findNonEmpty_eq_none_iff.mp hfind _ htakes.le_start)
        | some t =>
            have ht := Pattern.findNonEmpty_eq_some_iff.mp hfind
            have hle := Cursor.offset_le (ht.first ⟨s.start, stop⟩ htakes.le_start hhex)
            have hlt := (hfirst 0 hexNumber t rfl ht).2 Nat.zero_lt_one
            exact absurd hle (Nat.not_le_of_gt hlt)
      · exact hlongest.longest word hword hpre

theorem HasEdge.cons_minus {number : List Char} (hedge : HasEdge (some '-') number)
    (before : Option Char) : HasEdge before ('-' :: number) := by
  have hlead : ('-' :: number).takeWhile (!isAsciiDigit ·) =
      '-' :: number.takeWhile (!isAsciiDigit ·) := List.takeWhile_cons_of_pos rfl
  have hlast : ∀ lead : List Char,
      ('-' :: lead).getLast?.or before = lead.getLast?.or (some '-') := by
    intro lead
    rw [List.getLast?_cons]
    cases lead.getLast? <;> rfl
  rw [HasEdge, hlead, hlast]
  exact hedge.imp_left (List.mem_cons_of_mem _)

/-- What the scan leaves behind it does not end with a sign. -/
theorem stop_before_ne_minus (hnumber : options.number = .baseMode) {rule : CompiledRule}
    (hrule : rule ∈ (highlighter options).rules)
    (htoken : (∃ category, rule.HasToken category s) ∨ rule.Rejects s) :
    s.stop.before ≠ some '-' := by
  have hquote : s.stop.before = some '"' → s.stop.before ≠ some '-' := fun heq => by
    rw [heq]
    decide
  rcases htoken with ⟨category, htoken⟩ | hrejects
  · rcases List.mem_pair.mp hrule with rfl | rfl
    · exact hquote (of_hasToken_stringRegion htoken).2.2
    · cases htoken with
      | variant hp takes =>
          rw [hnumber] at hp
          obtain ⟨L, hL, hkind⟩ := exists_kind hp
          exact stop_before_of_takes hL hkind takes
  · obtain ⟨rest, -, hstop⟩ := takes_quotePattern_iff.mp (takes_of_rejects hrule hrejects)
    exact hquote (by rw [hstop]; rfl)

/-- A number that begins with no sign has none before it. -/
theorem start_before_ne_minus (hnumber : options.number = .baseMode)
    (hvisits : (highlighter options).Visits (.atStart text.toList 0) c)
    (hbegins : (CompiledRule.pattern .number (numberVariants .baseMode)).BeginsFirst c s)
    (hhead : s.start.rest.head? ≠ some '-') : s.start.before ≠ some '-' := by
  intro hbefore
  obtain ⟨hle, p, hp, htakes⟩ := hbegins.exists_takes
  rcases eq_or_lt_of_le hle with rfl | hlt
  · rcases hvisits.exists_stop_eq (htakes.rest_ne_nil hle) with
      hstart | ⟨rule, hrule, t, htoken, hstop⟩
    · rw [hstart] at hbefore
      cases hbefore
    · exact stop_before_ne_minus hnumber hrule htoken (hstop ▸ hbefore)
  · -- With the sign the number would begin earlier.
    obtain ⟨L, hL, hkind⟩ := exists_kind hp
    obtain ⟨number, back, hlongest, hedge, -⟩ := exists_isLongest_of_takes hL htakes
    obtain ⟨e, x, hce, hrest, hx, hlt⟩ := Cursor.exists_le_of_lt hlt
    obtain rfl : '-' = x := Option.some.inj (hbefore.symm.trans hx)
    rw [hlongest.text_eq, List.head?_append_of_ne_nil _ (hkind.ne_nil hlongest.mem)] at hhead
    have hpre : '-' :: number <+: e.rest := ⟨back, by rw [hrest, hlongest.text_eq]; rfl⟩
    rw [hbefore] at hedge
    obtain ⟨stop, hearlier⟩ := exists_takes hL hkind
      (hkind.cons_minus _ hlongest.mem hhead) hpre (hedge.cons_minus e.before)
    have hoffset := hbegins.offset_le hp hce hearlier
    exact absurd hoffset (Nat.not_le_of_gt (Cursor.lt_iff.mp hlt).2)

theorem exists_takes_of_isMaximalRun {front run back : List Char}
    (hrun : IsMaximalRun isAsciiDigit text.toList front run back)
    (hletter : front.getLast?.any isLetterOrUnderscore = false) :
    ∃ stop, signedNumber.Takes ⟨.between front (run ++ back), stop⟩ := by
  obtain ⟨x, run', rfl⟩ := List.exists_cons_of_ne_nil hrun.ne_nil
  have hx : [x] ∈ someOf isAsciiDigit :=
    ⟨List.cons_ne_nil x [], List.forall_mem_singleton.mpr (hrun.all x List.mem_cons_self)⟩
  have hmem : [x] ∈ decimalNumbers :=
    ⟨[], .inl rfl, [x], ⟨[x], .inl ⟨[x], hx, [], .inl rfl, rfl⟩, [], .inl rfl, rfl⟩, rfl⟩
  have hedge : HasEdge front.getLast? [x] := by
    have hlead : [x].takeWhile (!isAsciiDigit ·) = [] := by simp [hx.2]
    rw [HasEdge, hlead]
    refine .inr ?_
    show front.getLast?.any isAsciiWord = false
    rw [any_isAsciiWord_eq, hrun.before, hletter, Bool.or_false]
  exact exists_takes takesLongest_signedNumber isNumberKind_decimalNumbers hmem
    ⟨run' ++ back, rfl⟩ ((Cursor.before_between front _).symm ▸ hedge)

end Scan

/-- In the form of numbers that host engines know, every number of a text is the longest one that
begins where it does; its first digit does not directly follow a word character, unless it follows a
point with which the number begins; the number begins with the sign if there is one. Digits that are
in no string and do not follow a letter or an underscore are in a number. -/
theorem exists_signedNumbers (options : AlakonOptions) (hnumber : options.number = .baseMode) :
    ∃ h, Highlighter.ofGrammar Pattern.ofString? (alakon options) = .ok h ∧ ∀ text : String,
      (∀ span ∈ h.highlight text, span.category = some .number →
        ∃ front number back, text.toList = front ++ number ++ back ∧
          span = .covering (some .number) front number ∧
          IsLongest signedNumbers (number ++ back) number back ∧
          HasEdge front.getLast? number ∧
          (number.head? ≠ some '-' → front.getLast? ≠ some '-')) ∧
      ∀ front run back, IsMaximalRun isAsciiDigit text.toList front run back →
        (∀ span ∈ h.highlight text, span.category = some .string → ¬span.Holds front run) →
        front.getLast?.any isLetterOrUnderscore = false →
          ∃ span ∈ h.highlight text, span.category = some .number ∧ span.Holds front run := by
  refine ⟨_, ofGrammar_alakon options, fun text => ⟨?_, ?_⟩⟩
  · intro span hspan hcategory
    obtain ⟨c, s, hvisits, hbegins, rfl⟩ := exists_number_of_mem_highlight hspan hcategory
    rw [hnumber] at hbegins
    obtain ⟨number, back, hlongest, hedge, hstop⟩ := isLongest_of_beginsFirst hbegins
    obtain ⟨hle, p, hp, htakes⟩ := hbegins.exists_takes
    obtain ⟨front, htext, hbetween⟩ := Cursor.exists_eq_between (hvisits.le.trans hle)
    have hbefore := start_before_ne_minus hnumber hvisits hbegins
    have hne : number ≠ [] := hlongest.mem.elim isNumberKind_hexNumbers.ne_nil
      isNumberKind_decimalNumbers.ne_nil
    have hrest := hlongest.text_eq
    rw [hrest] at htext hbetween hlongest hbefore
    rw [hbetween, Cursor.before_between] at hedge hbefore
    rw [hstop, hbetween, Cursor.between_pass]
    refine ⟨front, number, back, by rw [htext, List.append_assoc], rfl, hlongest, hedge, ?_⟩
    intro hhead
    exact hbefore (by rwa [List.head?_append_of_ne_nil _ hne])
  · intro front run back hrun hstring hletter
    refine exists_number_holding hrun hstring ?_ ?_
    · rw [hnumber]
      exact ⟨signedNumber, List.mem_cons_of_mem _ List.mem_cons_self,
        exists_takes_of_isMaximalRun hrun hletter⟩
    · rw [hnumber]
      intro p hp s htakes
      obtain ⟨L, hL, hkind⟩ := exists_kind hp
      exact stop_rest_of_takes hL hkind htakes

/-- The sign behind a word belongs to the number. -/
theorem exists_signedNumbers_behind_word :
    AlakonOptions.classic.number = .baseMode ∧
      ∃ h, Highlighter.ofGrammar Pattern.ofString? (alakon .classic) = .ok h ∧
        (∃ front number back, "a-5".toList = front ++ number ++ back ∧
          (⟨some .number, 1, 3⟩ : Span) = .covering (some .number) front number ∧
          IsLongest signedNumbers (number ++ back) number back ∧
          HasEdge front.getLast? number ∧
          (number.head? ≠ some '-' → front.getLast? ≠ some '-')) ∧
        ∃ span ∈ h.highlight "a-5", span.category = some .number ∧ span.Holds ['a', '-'] ['5'] := by
  obtain ⟨h, hread, hspec⟩ := exists_signedNumbers .classic rfl
  obtain rfl := Except.ok.inj (hread.symm.trans (ofGrammar_alakon .classic))
  obtain ⟨hsound, hcomplete⟩ := hspec "a-5"
  have hspans : (highlighter .classic).highlight "a-5" = [⟨none, 0, 1⟩, ⟨some .number, 1, 3⟩] := by
    decide +kernel
  refine ⟨rfl, _, hread, hsound ⟨some .number, 1, 3⟩ (by rw [hspans]; decide) rfl, ?_⟩
  have hfive : ∀ x ∈ ['5'], isAsciiDigit x := List.forall_mem_singleton.mpr rfl
  refine hcomplete ['a', '-'] ['5'] [] ⟨rfl, List.cons_ne_nil _ _, hfive, rfl, rfl⟩ ?_ rfl
  simp [hspans]

end Alakon

end CodeTint
