import CodeTint.Proofs.Alakon.NumberMatches
import CodeTint.Proofs.Alakon.Tokens

/-!
# Plain numbers

In the other form of numbers there is no sign and no exponent, and a number stands apart from words
on both sides. The edge behind the number makes the search give up a fraction that a letter follows,
but never a digit of a run (`choose_digits`): between two digits there is no edge. What is found is
therefore decided by what follows the run of digits and the fraction (`Alakon.exists_plainNumbers`).
-/

namespace CodeTint

namespace Alakon

/-- The numbers `[0-9]+(\.[0-9]+)?`. -/
def plainNumbers : Language Char :=
  someOf isAsciiDigit * optionally (charOf '.' * someOf isAsciiDigit)

theorem ne_nil_of_mem_plainNumbers {number : List Char} (h : number ∈ plainNumbers) :
    number ≠ [] :=
  fun hnil => nil_notMem_mul (nil_notMem_someOf _) (hnil ▸ h)

/-! ## The edge behind a number -/

variable {c d : Cursor} {digits rest : List Char}

/-- It is not possible to go on between two digits. -/
def StuckInDigits (goOn : Cursor → Option Cursor) : Prop :=
  ∀ d : Cursor, d.before.any isAsciiDigit → d.rest.head?.any isAsciiDigit → goOn d = none

theorem pass_before_any {p : Char → Bool} {run : List Char} (hne : run ≠ []) (hrun : ∀ x ∈ run, p x)
    (c : Cursor) (rest : List Char) : (c.pass run rest).before.any p := by
  rw [Cursor.before_pass, List.getLast?_eq_some_getLast hne]
  exact hrun _ (List.getLast_mem hne)

/-- If it is not possible to go on between digits, then all digits of a run are taken. -/
theorem choose_digits {goOn : Cursor → Option Cursor} (hstuck : StuckInDigits goOn)
    (hdigits : IsLongest (someOf isAsciiDigit) c.rest digits rest) :
    (someNode digitSet).choose goOn c = goOn (c.pass digits rest) := by
  refine munches_digits.choose_eq c goOn digits rest hdigits fun hend word rest' hrest hword => ?_
  rcases hdigits.eq_or_head? hword hrest with ⟨rfl, rfl⟩ | ⟨x, hx, hhead⟩
  · exact hend
  · refine hstuck _ (pass_before_any hword.1 hword.2 c rest') ?_
    show rest'.head?.any isAsciiDigit
    rw [hhead]
    exact hdigits.mem.2 x hx

/-- Behind a word character there is an edge if none follows. -/
theorem choose_edgeNode_behind (hbefore : d.before.any isAsciiWord) :
    edgeNode.choose some d = if d.rest.head?.any isAsciiWord then none else some d := by
  rw [edgeNode, Node.choose_assertion]
  cases hword : d.rest.head?.any isAsciiWord <;>
    simp [Assertion.holds, WordEdge.holds, hbefore, hword]

theorem eq_of_choose_edgeNode {e : Cursor} (hbefore : e.before.any isAsciiWord)
    (h : edgeNode.choose some e = some d) : d = e ∧ e.rest.head?.any isAsciiWord = false := by
  rw [choose_edgeNode_behind hbefore] at h
  split at h
  · cases h
  · rename_i hword
    exact ⟨(Option.some.inj h).symm, Bool.eq_false_iff.mpr hword⟩

theorem any_isAsciiWord_of_digit {x : Option Char} (h : x.any isAsciiDigit) :
    x.any isAsciiWord := by
  rw [any_isAsciiWord_eq, h, Bool.true_or]

theorem stuckInDigits_edgeNode : StuckInDigits (edgeNode.choose some) := by
  intro d hbefore hahead
  rw [choose_edgeNode_behind (any_isAsciiWord_of_digit hbefore),
    if_pos (any_isAsciiWord_of_digit hahead)]

/-! ## Matches -/

/-- A fraction, or nothing, and an edge behind it. -/
def chooseFraction : Cursor → Option Cursor :=
  (optionNode (.seqOf [charNode '.', someNode digitSet])).choose (edgeNode.choose some)

theorem chooseFraction_eq (d : Cursor) :
    chooseFraction d =
      ((Node.seq (charNode '.') (someNode digitSet)).choose (edgeNode.choose some) d).or
        (edgeNode.choose some d) :=
  Node.choose_option _ _ _

theorem chooseFraction_of_no_fraction
    (hnone : ∀ word ∈ charOf '.' * someOf isAsciiDigit, ¬word <+: d.rest) :
    chooseFraction d = edgeNode.choose some d := by
  rw [chooseFraction_eq, munches_point_digits.choose_eq_none d _ hnone, Option.none_or]

theorem chooseFraction_of_fraction {back : List Char} (hd : d.rest = '.' :: (digits ++ back))
    (hdigits : IsLongest (someOf isAsciiDigit) (digits ++ back) digits back) :
    chooseFraction d =
      (edgeNode.choose some (d.pass ('.' :: digits) back)).or (edgeNode.choose some d) := by
  rw [chooseFraction_eq, Node.choose_seq, charNode, Node.choose_one_of_mem hd rfl,
    choose_digits stuckInDigits_edgeNode hdigits, Cursor.pass_pass]
  rfl

theorem stuckInDigits_chooseFraction : StuckInDigits chooseFraction := by
  intro d hbefore hahead
  rw [chooseFraction_of_no_fraction, stuckInDigits_edgeNode d hbefore hahead]
  obtain ⟨x, rest, hrest, hx⟩ := exists_cons_of_any_head? hahead
  refine not_prefix_of_no_point ?_
  rw [hrest, List.head?_cons, Option.any_some, decide_eq_false_iff_not]
  rintro rfl
  cases hx

theorem choose_plainNumber :
    plainNumberNode.choose some =
      edgeNode.choose ((someNode digitSet).choose chooseFraction) := by
  simp only [plainNumberNode, Node.seqOf, List.foldl, Node.choose_seq_eq, chooseFraction]

/-- The pattern takes the digits where it begins, if there is an edge before them, and then a
fraction or nothing. -/
theorem matchEnd_plainNumber (hdigits : IsLongest (someOf isAsciiDigit) c.rest digits rest) :
    plainNumber.matchEnd c =
      if c.before.any isAsciiWord then none else chooseFraction (c.pass digits rest) := by
  have hhead : c.rest.head?.any isAsciiDigit := by
    obtain ⟨x, more, hcons⟩ := List.exists_cons_of_ne_nil hdigits.mem.1
    rw [hdigits.text_eq, hcons]
    exact hdigits.mem.2 x (hcons ▸ List.mem_cons_self)
  have hedge : edgeNode.choose ((someNode digitSet).choose chooseFraction) c =
      if hasDigitBehindWord c then none else (someNode digitSet).choose chooseFraction c :=
    choose_edgeNode fun hnot => Bool.noConfusion (hhead.symm.trans hnot)
  rw [Node.matchEnd_pattern, ← Node.choose_some, choose_plainNumber, hedge, hasDigitBehindWord,
    hhead, Bool.true_and, choose_digits stuckInDigits_chooseFraction hdigits]

theorem exists_digits_of_matchEnd_plainNumber (h : plainNumber.matchEnd c = some d) :
    ∃ digits rest, IsLongest (someOf isAsciiDigit) c.rest digits rest := by
  by_contra hnone
  have hfail : (someNode digitSet).choose chooseFraction c = none :=
    munches_digits.choose_eq_none c _ fun word hword hpre =>
      hnone (exists_isLongest hword hpre)
  rw [Node.matchEnd_pattern, ← Node.choose_some, choose_plainNumber, edgeNode,
    Node.choose_assertion, hfail, ite_self] at h
  cases h

/-- Digits that stand apart from words are a number at least. -/
theorem isSome_matchEnd_plainNumber
    (hdigits : IsLongest (someOf isAsciiDigit) c.rest digits rest)
    (hbefore : c.before.any isAsciiWord = false) (hrest : rest.head?.any isAsciiWord = false) :
    (plainNumber.matchEnd c).isSome := by
  have hword := any_isAsciiWord_of_digit (pass_before_any hdigits.mem.1 hdigits.mem.2 c rest)
  have hedge : edgeNode.choose some (c.pass digits rest) = some (c.pass digits rest) := by
    rw [choose_edgeNode_behind hword]
    exact if_neg (Bool.eq_false_iff.mp hrest)
  rw [matchEnd_plainNumber hdigits, if_neg (Bool.eq_false_iff.mp hbefore), chooseFraction_eq, hedge]
  simp

theorem pass_fraction_before_any {fraction : List Char} (hfraction : fraction ∈ someOf isAsciiDigit)
    (d : Cursor) (back : List Char) :
    (d.pass ('.' :: fraction) back).before.any isAsciiWord := by
  have hlast := pass_before_any hfraction.1 hfraction.2 (d.pass ['.'] []) back
  rw [Cursor.pass_pass] at hlast
  exact any_isAsciiWord_of_digit hlast

/-- Digits with a fraction that no word character follows are a number. -/
theorem matchEnd_plainNumber_fraction {fraction back : List Char}
    (hdigits : IsLongest (someOf isAsciiDigit) c.rest digits ('.' :: (fraction ++ back)))
    (hfraction : IsLongest (someOf isAsciiDigit) (fraction ++ back) fraction back)
    (hbefore : c.before.any isAsciiWord = false) (hback : back.head?.any isAsciiWord = false) :
    plainNumber.matchEnd c = some (c.pass (digits ++ '.' :: fraction) back) := by
  rw [matchEnd_plainNumber hdigits, if_neg (Bool.eq_false_iff.mp hbefore),
    chooseFraction_of_fraction rfl hfraction,
    choose_edgeNode_behind (pass_fraction_before_any hfraction.mem _ back), Cursor.pass_pass]
  show (if back.head?.any isAsciiWord then none else some _).or _ = _
  rw [if_neg (Bool.eq_false_iff.mp hback), Option.some_or]

theorem exists_fraction_of_prefix {word : List Char}
    (hword : word ∈ charOf '.' * someOf isAsciiDigit) (hpre : word <+: rest) :
    ∃ fraction back, rest = '.' :: (fraction ++ back) ∧
      IsLongest (someOf isAsciiDigit) (fraction ++ back) fraction back := by
  obtain ⟨_, ⟨x, hx, rfl⟩, more, hmore, rfl⟩ := hword
  obtain rfl := of_decide_eq_true hx
  obtain ⟨behind, rfl⟩ := hpre
  obtain ⟨fraction, back, hfraction⟩ :
      ∃ fraction back, IsLongest (someOf isAsciiDigit) (more ++ behind) fraction back :=
    exists_isLongest hmore (List.prefix_append _ _)
  have htext := hfraction.text_eq
  rw [htext] at hfraction
  exact ⟨fraction, back, congrArg ('.' :: ·) htext, hfraction⟩

/-- Behind the digits a fraction is taken or nothing, and no word character follows. -/
theorem exists_of_chooseFraction {e : Cursor} (hbefore : d.before.any isAsciiWord)
    (h : chooseFraction d = some e) :
    ∃ fraction back, d.rest = fraction ++ back ∧
      fraction ∈ optionally (charOf '.' * someOf isAsciiDigit) ∧
      back.head?.any isAsciiWord = false ∧ e = d.pass fraction back := by
  have hcases : edgeNode.choose some d = some e ∨ ∃ fraction back,
      d.rest = '.' :: (fraction ++ back) ∧ fraction ∈ someOf isAsciiDigit ∧
        edgeNode.choose some (d.pass ('.' :: fraction) back) = some e := by
    by_cases hpoint : ∃ word ∈ charOf '.' * someOf isAsciiDigit, word <+: d.rest
    · obtain ⟨word, hmem, hpre⟩ := hpoint
      obtain ⟨fraction, back, hrest, hfraction⟩ := exists_fraction_of_prefix hmem hpre
      rw [chooseFraction_of_fraction hrest hfraction, Option.or_eq_some_iff] at h
      rcases h with hedge | ⟨-, hedge⟩
      · exact .inr ⟨fraction, back, hrest, hfraction.mem, hedge⟩
      · exact .inl hedge
    · rw [chooseFraction_of_no_fraction fun word hmem hpre => hpoint ⟨word, hmem, hpre⟩] at h
      exact .inl h
  rcases hcases with hedge | ⟨fraction, back, hrest, hfraction, hedge⟩
  · obtain ⟨rfl, hword⟩ := eq_of_choose_edgeNode hbefore hedge
    exact ⟨[], e.rest, rfl, .inl rfl, hword, e.pass_nil.symm⟩
  · obtain ⟨he, hback⟩ := eq_of_choose_edgeNode (pass_fraction_before_any hfraction _ _) hedge
    have hmem : '.' :: fraction ∈ charOf '.' * someOf isAsciiDigit :=
      ⟨['.'], ⟨'.', rfl, rfl⟩, fraction, hfraction, rfl⟩
    exact ⟨'.' :: fraction, back, hrest, .inr hmem, hback, he⟩

/-- What the pattern takes is a plain number that stands apart from words. -/
theorem exists_of_matchEnd_plainNumber (h : plainNumber.matchEnd c = some d) :
    ∃ number back, c.rest = number ++ back ∧ number ∈ plainNumbers ∧
      c.before.any isAsciiWord = false ∧ back.head?.any isAsciiWord = false ∧
      d = c.pass number back := by
  obtain ⟨digits, rest, hdigits⟩ := exists_digits_of_matchEnd_plainNumber h
  rw [matchEnd_plainNumber hdigits] at h
  split at h
  · cases h
  · rename_i hbefore
    have hword := any_isAsciiWord_of_digit (pass_before_any hdigits.mem.1 hdigits.mem.2 c rest)
    obtain ⟨fraction, back, hrest, hfraction, hback, hd⟩ := exists_of_chooseFraction hword h
    obtain rfl : rest = fraction ++ back := hrest
    refine ⟨digits ++ fraction, back, ?_, Language.append_mem_mul hdigits.mem hfraction,
      Bool.eq_false_iff.mpr hbefore, hback, ?_⟩
    · rw [hdigits.text_eq, List.append_assoc]
    · rw [hd, Cursor.pass_pass]

theorem takes_plainNumber_of_matchEnd (h : plainNumber.matchEnd c = some d) :
    plainNumber.Takes ⟨c, d⟩ := by
  obtain ⟨number, back, hrest, hnumber, -, -, rfl⟩ := exists_of_matchEnd_plainNumber h
  exact ⟨h, c.lt_pass hrest (ne_nil_of_mem_plainNumbers hnumber)⟩

/-! ## Numbers of a text -/

section Scan

variable {options : AlakonOptions} {text : String} {span : Span} {front run back : List Char}

theorem exists_takes_plainNumber (hnumber : options.number = .singlePattern)
    (hspan : span ∈ (highlighter options).highlight text)
    (hcategory : span.category = some .number) :
    ∃ s, .atStart text.toList 0 ≤ s.start ∧ plainNumber.Takes s ∧
      span = ⟨some .number, s.start.offset, s.stop.offset⟩ := by
  obtain ⟨c, s, hvisits, hbegins, hspan⟩ := exists_number_of_mem_highlight hspan hcategory
  rw [hnumber] at hbegins
  obtain ⟨hle, p, hp, htakes⟩ := hbegins.exists_takes
  obtain rfl := List.mem_singleton.mp hp
  exact ⟨s, hvisits.le.trans hle, htakes, hspan⟩

/-- Digits and a fraction are a number if a number begins with the digits and no letter follows. -/
theorem covering_mem_highlight_iff (hnumber : options.number = .singlePattern)
    {whole fraction : List Char}
    (hwhole : IsMaximalRun isAsciiDigit text.toList front whole ('.' :: (fraction ++ back)))
    (hfraction : IsMaximalRun isAsciiDigit text.toList (front ++ whole ++ ['.']) fraction back) :
    .covering (some .number) front (whole ++ '.' :: fraction) ∈
        (highlighter options).highlight text ↔
      (∃ span ∈ (highlighter options).highlight text, span.category = some .number ∧
        span.start = byteSize front) ∧ back.head?.any isLetterOrUnderscore = false := by
  have htext : text.toList = front ++ ((whole ++ '.' :: fraction) ++ back) := by
    rw [hwhole.text_eq]
    simp
  have hstart := Cursor.atStart_le_between htext
  constructor
  · intro hmem
    refine ⟨⟨_, hmem, rfl, rfl⟩, ?_⟩
    obtain ⟨s, hs, htakes, hspan⟩ := exists_takes_plainNumber hnumber hmem rfl
    obtain ⟨number, back', hrest, -, -, hback, hstop⟩ := exists_of_matchEnd_plainNumber htakes.ends
    have hstop_eq : s.stop = .between (front ++ (whole ++ '.' :: fraction)) back := by
      refine Cursor.eq_of_offset_eq (hs.trans htakes.start_lt_stop.le)
        (Cursor.atStart_le_between (by simp [htext])) ?_
      exact (congrArg Span.stop hspan).symm
    obtain rfl : back' = back := congrArg Cursor.rest (hstop.symm.trans hstop_eq)
    rw [any_isAsciiWord_eq, Bool.or_eq_false_iff] at hback
    exact hback.2
  · rintro ⟨⟨span, hspan, hcategory, hoffset⟩, hletter⟩
    obtain ⟨s, hs, htakes, rfl⟩ := exists_takes_plainNumber hnumber hspan hcategory
    have hstart_eq := Cursor.eq_of_offset_eq hs hstart hoffset
    obtain ⟨-, -, -, -, hbefore, -, -⟩ := exists_of_matchEnd_plainNumber htakes.ends
    have hback : back.head?.any isAsciiWord = false := by
      rw [any_isAsciiWord_eq, hfraction.behind, hletter, Bool.or_false]
    have hend := htakes.ends
    rw [hstart_eq] at hbefore hend
    have hdigits : IsLongest (someOf isAsciiDigit) (whole ++ '.' :: fraction ++ back) whole
        ('.' :: (fraction ++ back)) :=
      isLongest_someOf_iff.mpr
        ⟨List.append_assoc _ _ _, hwhole.ne_nil, hwhole.all, hwhole.behind⟩
    have hfraction' : IsLongest (someOf isAsciiDigit) (fraction ++ back) fraction back :=
      isLongest_someOf_iff.mpr ⟨rfl, hfraction.ne_nil, hfraction.all, hfraction.behind⟩
    rw [matchEnd_plainNumber_fraction hdigits hfraction' hbefore hback, Cursor.between_pass] at hend
    rw [hstart_eq, ← Option.some.inj hend] at hspan
    exact hspan

theorem exists_takes_plainNumber_of_isMaximalRun
    (hrun : IsMaximalRun isAsciiDigit text.toList front run back)
    (hbefore : front.getLast?.any isLetterOrUnderscore = false)
    (hbehind : back.head?.any isLetterOrUnderscore = false) :
    ∃ stop, plainNumber.Takes ⟨.between front (run ++ back), stop⟩ := by
  have hword : ∀ x : Option Char, x.any isAsciiDigit = false →
      x.any isLetterOrUnderscore = false → x.any isAsciiWord = false := by
    intro x hdigit hletter
    rw [any_isAsciiWord_eq, hdigit, hletter, Bool.or_false]
  have hdigits : IsLongest (someOf isAsciiDigit) (run ++ back) run back :=
    isLongest_someOf_iff.mpr ⟨rfl, hrun.ne_nil, hrun.all, hrun.behind⟩
  have hfront : (Cursor.between front (run ++ back)).before.any isAsciiWord = false := by
    rw [Cursor.before_between]
    exact hword _ hrun.before hbefore
  have hsome := isSome_matchEnd_plainNumber (c := .between front (run ++ back)) hdigits hfront
    (hword _ hrun.behind hbehind)
  obtain ⟨stop, hstop⟩ := Option.isSome_iff_exists.mp hsome
  exact ⟨stop, takes_plainNumber_of_matchEnd hstop⟩

theorem stop_rest_of_takes_plainNumber {s : Stretch} (hs : plainNumber.Takes s) :
    s.stop.rest.head?.any isAsciiDigit = false := by
  obtain ⟨number, back, -, -, -, hback, hstop⟩ := exists_of_matchEnd_plainNumber hs.ends
  rw [any_isAsciiWord_eq, Bool.or_eq_false_iff] at hback
  rw [hstop]
  exact hback.1

end Scan

/-- In the form of numbers without a sign, every number of a text is made of digits and perhaps a
fraction, and stands apart from words. A run of digits and a fraction behind it are a number
together if a number begins with the digits and no letter or underscore follows the fraction. Digits
that are in no string and do not stand next to a letter or an underscore are in a number. -/
theorem exists_plainNumbers (options : AlakonOptions) (hnumber : options.number = .singlePattern) :
    ∃ h, Highlighter.ofGrammar Pattern.ofString? (alakon options) = .ok h ∧ ∀ text : String,
      (∀ span ∈ h.highlight text, span.category = some .number →
        ∃ front number back, text.toList = front ++ number ++ back ∧
          span = .covering (some .number) front number ∧ number ∈ plainNumbers ∧
          front.getLast?.any isAsciiWord = false ∧ back.head?.any isAsciiWord = false) ∧
      (∀ front whole fraction back,
        IsMaximalRun isAsciiDigit text.toList front whole ('.' :: (fraction ++ back)) →
        IsMaximalRun isAsciiDigit text.toList (front ++ whole ++ ['.']) fraction back →
          (.covering (some .number) front (whole ++ '.' :: fraction) ∈ h.highlight text ↔
            (∃ span ∈ h.highlight text, span.category = some .number ∧
              span.start = byteSize front) ∧ back.head?.any isLetterOrUnderscore = false)) ∧
      ∀ front run back, IsMaximalRun isAsciiDigit text.toList front run back →
        (∀ span ∈ h.highlight text, span.category = some .string → ¬span.Holds front run) →
        front.getLast?.any isLetterOrUnderscore = false →
        back.head?.any isLetterOrUnderscore = false →
          ∃ span ∈ h.highlight text, span.category = some .number ∧ span.Holds front run := by
  refine ⟨_, ofGrammar_alakon options, fun text => ⟨?_, ?_, ?_⟩⟩
  · intro span hspan hcategory
    obtain ⟨s, hs, htakes, rfl⟩ := exists_takes_plainNumber hnumber hspan hcategory
    obtain ⟨number, back, hrest, hmem, hbefore, hback, hstop⟩ :=
      exists_of_matchEnd_plainNumber htakes.ends
    obtain ⟨front, htext, hbetween⟩ := Cursor.exists_eq_between hs
    rw [hrest] at htext hbetween
    rw [hbetween, Cursor.before_between] at hbefore
    rw [hstop, hbetween, Cursor.between_pass]
    exact ⟨front, number, back, by rw [htext, List.append_assoc], rfl, hmem, hbefore, hback⟩
  · intro front whole fraction back hwhole hfraction
    exact covering_mem_highlight_iff hnumber hwhole hfraction
  · intro front run back hrun hstring hbefore hbehind
    refine exists_number_holding hrun hstring ?_ ?_
    · rw [hnumber]
      exact ⟨plainNumber, List.mem_singleton.mpr rfl,
        exists_takes_plainNumber_of_isMaximalRun hrun hbefore hbehind⟩
    · rw [hnumber]
      intro p hp s htakes
      obtain rfl := List.mem_singleton.mp hp
      exact stop_rest_of_takes_plainNumber htakes

/-- A letter behind the fraction makes the number end before the point. -/
theorem exists_plainNumbers_before_point :
    AlakonOptions.extended.number = .singlePattern ∧
      ∃ h, Highlighter.ofGrammar Pattern.ofString? (alakon .extended) = .ok h ∧
        (.covering (some .number) [] ['1', '.', '5'] ∈ h.highlight "1.5x" ↔
          (∃ span ∈ h.highlight "1.5x", span.category = some .number ∧
            span.start = byteSize []) ∧ ['x'].head?.any isLetterOrUnderscore = false) ∧
        ∃ span ∈ h.highlight "1.5", span.category = some .number ∧ span.Holds ['1', '.'] ['5'] := by
  obtain ⟨h, hread, hspec⟩ := exists_plainNumbers .extended rfl
  obtain rfl := Except.ok.inj (hread.symm.trans (ofGrammar_alakon .extended))
  have hspans : (highlighter .extended).highlight "1.5" = [⟨some .number, 0, 3⟩] := by
    decide +kernel
  have hone : ∀ x ∈ ['1'], isAsciiDigit x := List.forall_mem_singleton.mpr rfl
  have hfive : ∀ x ∈ ['5'], isAsciiDigit x := List.forall_mem_singleton.mpr rfl
  refine ⟨rfl, _, hread, ?_, ?_⟩
  · exact (hspec "1.5x").2.1 [] ['1'] ['5'] ['x'] ⟨rfl, List.cons_ne_nil _ _, hone, rfl, rfl⟩
      ⟨rfl, List.cons_ne_nil _ _, hfive, rfl, rfl⟩
  · refine (hspec "1.5").2.2 ['1', '.'] ['5'] [] ⟨rfl, List.cons_ne_nil _ _, hfive, rfl, rfl⟩ ?_
      rfl rfl
    simp [hspans]

end Alakon

end CodeTint
