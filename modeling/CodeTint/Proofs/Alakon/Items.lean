import CodeTint.Proofs.Alakon.Begin

/-!
# Texts of separate items

In a text of plain numbers, identifiers and strings with separators between them, the tokens are
those of the items (`tokensFrom_eq_itemSpans`), in either form of numbers. The two forms therefore
highlight such a text alike (`Alakon.highlight_items_alike`). Where a plain number stands alone,
either form takes that number and nothing else (`StandsAlone.exists_takes_iff`): it is the longest
signed number, and no hexadecimal one begins there. Words and separators are calm, so that the
number is found where it begins, whatever items there are before it.
-/

namespace CodeTint

namespace Alakon

/-! ## Items -/

/-- The characters that may stand between items. -/
def isSeparator (x : Char) : Bool :=
  !isAsciiWord x && x ≠ '.' && x ≠ '-' && x ≠ '"'

inductive ItemKind where
  | number
  | word
  | string
deriving DecidableEq

/-- What may stand between the quotes of a string. -/
def isStringChar (x : Char) : Bool :=
  x ≠ '"' && x ≠ '\n'

def ItemKind.texts : ItemKind → Language Char
  | number => plainNumbers
  | word => identifiers
  | string => charOf '"' * (anyOf isStringChar * charOf '"')

/-- An item, with the separator that follows it. -/
structure Item where
  kind : ItemKind
  text : List Char
  separator : List Char
  text_mem : text ∈ kind.texts
  separator_all : ∀ x ∈ separator, isSeparator x

namespace Item

def chars (item : Item) : List Char :=
  item.text ++ item.separator

/-- The span of an item that stands behind `front`, if words have the given categories. -/
def span (categoryOf : String → Option Category) (front : List Char) (item : Item) : Span :=
  let category :=
    match item.kind with
    | .number => some .number
    | .word => categoryOf (String.ofList item.text)
    | .string => some .string
  .covering category front item.text

end Item

/-- No two items are next to each other. -/
def Separated (items : List Item) : Prop :=
  items.IsChain fun item _ => item.separator ≠ []

def charsOf (items : List Item) : List Char :=
  items.flatMap Item.chars

/-- The spans of items that stand behind `front`. -/
def itemSpans (categoryOf : String → Option Category) : (front : List Char) → List Item → List Span
  | _, [] => []
  | front, item :: items =>
    item.span categoryOf front :: itemSpans categoryOf (front ++ item.chars) items

variable {options : AlakonOptions} {form : NumberForm} {c d : Cursor} {text : String}
  {lead front number separator back : List Char} {item : Item} {items : List Item}
  {categoryOf : String → Option Category}

theorem charsOf_cons (item : Item) (items : List Item) :
    charsOf (item :: items) = item.text ++ (item.separator ++ charsOf items) :=
  List.append_assoc _ _ _

theorem mem_itemSpans (before : List Item) (item : Item) (after : List Item) :
    item.span categoryOf (front ++ charsOf before) ∈
      itemSpans categoryOf front (before ++ item :: after) := by
  induction before generalizing front with
  | nil => exact List.mem_cons.mpr (.inl (by rw [charsOf, List.flatMap_nil, List.append_nil]))
  | cons other before ih =>
      refine List.mem_cons_of_mem _ ?_
      rw [charsOf, List.flatMap_cons, ← List.append_assoc]
      exact ih

/-! ## Separators -/

theorem ne_of_isSeparator {x : Char} (hx : isSeparator x) :
    isAsciiWord x = false ∧ x ≠ '.' ∧ x ≠ '-' ∧ x ≠ '"' := by
  simpa [isSeparator, and_assoc] using hx

theorem not_isSeparator_of_isAsciiWord {x : Char} (hx : isAsciiWord x) : isSeparator x = false := by
  rw [isSeparator, hx]
  rfl

/-- Next to an item stands no character of a class that holds no separator. -/
theorem any_eq_false_of_all_isSeparator {p : Char → Bool} (hp : ∀ x, p x → isSeparator x = false)
    {x : Option Char} (hx : x.all isSeparator) : x.any p = false := by
  cases x with
  | none => rfl
  | some x =>
      by_contra hpx
      rw [Option.all_some, hp x (by simpa using hpx)] at hx
      cases hx

theorem isAsciiLetter_eq_false_of_isSeparator {x : Char} (hx : isSeparator x) :
    isAsciiLetter x = false := by
  by_contra hletter
  have hword := isAsciiWord_of_isAsciiLetter (Bool.not_eq_false _ ▸ hletter)
  rw [not_isSeparator_of_isAsciiWord hword] at hx
  cases hx

theorem any_getLast?_of_all_isSeparator (hall : ∀ x ∈ separator, isSeparator x) :
    separator.getLast?.any isAsciiWord = false := by
  cases hlast : separator.getLast? with
  | none => rfl
  | some x => exact (ne_of_isSeparator (hall x (List.mem_of_getLast? hlast))).1

theorem Item.head?_all (item : Item) : item.separator.head?.all isSeparator := by
  cases hseparator : item.separator with
  | nil => rfl
  | cons x separator => exact item.separator_all x (hseparator ▸ List.mem_cons_self)

theorem calm_of_all_isSeparator (hall : ∀ x ∈ separator, isSeparator x)
    (hc : c.rest = separator ++ back) : Calm c (c.pass separator back) := by
  intro place hle hlt
  obtain ⟨x, rest, hrest, hx⟩ :=
    exists_cons_of_any_head? (Cursor.any_head?_of_lt_pass hall hc hle hlt)
  obtain ⟨hword, hpoint, hminus, hquote⟩ := ne_of_isSeparator hx
  have hdigit : isAsciiDigit x = false := by
    rw [isAsciiWord_eq, Bool.or_eq_false_iff] at hword
    exact hword.1
  simp [mayBegin, mayBeginNumber, hrest, hpoint, hminus, hquote, hdigit]

theorem wordSpans_of_all_isSeparator (hall : ∀ x ∈ separator, isSeparator x) (offset : Nat) :
    wordSpans options offset separator = [] :=
  wordSpans_of_no_letter fun x hx => isAsciiLetter_eq_false_of_isSeparator (hall x hx)

theorem Separated.separator_ne_nil (hseparated : Separated (item :: items)) (hne : items ≠ []) :
    item.separator ≠ [] := by
  obtain ⟨next, items, rfl⟩ := List.exists_cons_of_ne_nil hne
  exact hseparated.rel

/-- What follows an item begins with a separator, unless the text ends there. -/
theorem Separated.head?_all (hseparated : Separated (item :: items)) :
    (item.separator ++ charsOf items).head?.all isSeparator := by
  by_cases hitems : items = []
  · rw [hitems, charsOf, List.flatMap_nil, List.append_nil]
    exact item.head?_all
  · rw [List.head?_append_of_ne_nil _ (hseparated.separator_ne_nil hitems)]
    exact item.head?_all

theorem Separated.any_getLast? (hseparated : Separated (item :: items)) (hne : items ≠ [])
    (front : List Char) : (front ++ item.chars).getLast?.any isAsciiWord = false := by
  rw [Item.chars, ← List.append_assoc,
    List.getLast?_append_of_ne_nil _ (hseparated.separator_ne_nil hne)]
  exact any_getLast?_of_all_isSeparator item.separator_all

/-! ## Numbers -/

theorem mem_mantissas_of_mem_plainNumbers (hnumber : number ∈ plainNumbers) :
    number ∈ mantissas := by
  obtain ⟨whole, hwhole, fraction, hfraction, rfl⟩ := hnumber
  refine .inl (Language.append_mem_mul hwhole ?_)
  rcases mem_optionally.mp hfraction with rfl | ⟨point, hpoint, digits, hdigits, rfl⟩
  · exact .inl rfl
  · exact .inr (Language.append_mem_mul hpoint hdigits.2)

theorem isDigitOrPoint_of_mem_plainNumbers (hnumber : number ∈ plainNumbers) :
    ∀ x ∈ number, isDigitOrPoint x :=
  consistsOf_mantissas number (mem_mantissas_of_mem_plainNumbers hnumber)

theorem exists_cons_of_mem_plainNumbers (hnumber : number ∈ plainNumbers) :
    ∃ x more, number = x :: more ∧ isAsciiDigit x := by
  obtain ⟨whole, hwhole, fraction, -, rfl⟩ := hnumber
  obtain ⟨x, more, rfl⟩ := List.exists_cons_of_ne_nil hwhole.1
  exact ⟨x, more ++ fraction, rfl, hwhole.2 x List.mem_cons_self⟩

theorem not_isSeparator_of_isDigitOrPoint {x : Char} (hx : isDigitOrPoint x) :
    isSeparator x = false := by
  rcases Bool.or_eq_true_iff.mp hx with hdigit | hpoint
  · refine not_isSeparator_of_isAsciiWord ?_
    rw [isAsciiWord_eq, hdigit, Bool.true_or]
  · rw [of_decide_eq_true hpoint]
    rfl

theorem isAsciiWord_of_isHexDigit {x : Char} (hx : isHexDigit x) : isAsciiWord x := by
  simp only [isHexDigit, Bool.or_eq_true, Bool.and_eq_true, decide_eq_true_eq] at hx
  simp only [isAsciiWord, Bool.or_eq_true, Bool.and_eq_true, decide_eq_true_eq]
  rcases hx with (⟨hle, hge⟩ | ⟨hle, hge⟩) | hdigit
  · exact .inl (.inl (.inl ⟨hle, hge.trans (by decide)⟩))
  · exact .inl (.inl (.inr ⟨hle, hge.trans (by decide)⟩))
  · exact .inl (.inr hdigit)

theorem consistsOf_hexNumbers : ConsistsOf (fun x => !isSeparator x) hexNumbers := by
  have hdigit : ∀ x, isHexDigit x → (!isSeparator x) = true := fun x hx => by
    rw [not_isSeparator_of_isAsciiWord (isAsciiWord_of_isHexDigit hx)]
    rfl
  exact (consistsOf_charOf rfl).optionally.mul
    ((consistsOf_charOf rfl).mul ((consistsOf_eitherOf rfl rfl).mul (consistsOf_someOf hdigit)))

/-- At the place stands a plain number, with no word in front of it, and behind it a separator or
the end of the text. -/
structure StandsAlone (c : Cursor) (number back : List Char) : Prop where
  rest_eq : c.rest = number ++ back
  mem : number ∈ plainNumbers
  before : c.before.any isAsciiWord = false
  behind : back.head?.all isSeparator

namespace StandsAlone

variable (h : StandsAlone c number back)

include h

theorem lt_pass : c < c.pass number back :=
  c.lt_pass h.rest_eq (ne_nil_of_mem_plainNumbers h.mem)

theorem not_behind {p : Char → Bool} (hp : ∀ x, p x → isSeparator x = false) :
    back.head?.any p = false :=
  any_eq_false_of_all_isSeparator hp h.behind

theorem matchEnd_plainNumber : plainNumber.matchEnd c = some (c.pass number back) := by
  have hdigit : back.head?.any isAsciiDigit = false := h.not_behind fun x hx =>
    not_isSeparator_of_isAsciiWord (by rw [isAsciiWord_eq, hx, Bool.true_or])
  have hpoint : back.head?.any (· = '.') = false := h.not_behind fun x hx =>
    of_decide_eq_true hx ▸ rfl
  have hword : back.head?.any isAsciiWord = false := h.not_behind fun x hx =>
    not_isSeparator_of_isAsciiWord hx
  obtain ⟨digits, hdigits, fraction, hfraction, rfl⟩ := h.mem
  rcases mem_optionally.mp hfraction with rfl | ⟨_, ⟨x, hx, rfl⟩, fraction, hfraction', rfl⟩
  · have hlongest : IsLongest (someOf isAsciiDigit) c.rest digits back :=
      isLongest_someOf_iff.mpr ⟨by simpa using h.rest_eq, hdigits.1, hdigits.2, hdigit⟩
    have hbehind := any_isAsciiWord_of_digit (pass_before_any hdigits.1 hdigits.2 c back)
    rw [Alakon.matchEnd_plainNumber hlongest, if_neg (Bool.eq_false_iff.mp h.before),
      chooseFraction_of_no_fraction (not_prefix_of_no_point hpoint), choose_edgeNode_behind hbehind]
    show (if back.head?.any isAsciiWord then none else some _) = _
    rw [if_neg (Bool.eq_false_iff.mp hword)]
    simp
  · obtain rfl := of_decide_eq_true hx
    have hlongest : IsLongest (someOf isAsciiDigit) c.rest digits ('.' :: (fraction ++ back)) :=
      isLongest_someOf_iff.mpr ⟨by simpa using h.rest_eq, hdigits.1, hdigits.2, rfl⟩
    have hlongest' : IsLongest (someOf isAsciiDigit) (fraction ++ back) fraction back :=
      isLongest_someOf_iff.mpr ⟨rfl, hfraction'.1, hfraction'.2, hdigit⟩
    exact matchEnd_plainNumber_fraction hlongest hlongest' h.before hword

/-- Neither a sign nor an exponent stands next to the number. -/
theorem isLongest_decimalNumbers : IsLongest decimalNumbers c.rest number back := by
  have hmantissa : IsLongest mantissas c.rest number back := by
    rw [h.rest_eq]
    exact consistsOf_mantissas.isLongest (mem_mantissas_of_mem_plainNumbers h.mem)
      (h.not_behind fun x hx => not_isSeparator_of_isDigitOrPoint hx)
  have hexponent : IsLongest (optionally exponents) back [] back := by
    refine isLongest_optionally_iff.mpr (.inr ⟨?_, rfl, rfl⟩)
    refine not_prefix_of_any_head? (beginsWith_exponents (p := isAsciiWord) rfl rfl)
      nil_notMem_exponents ?_
    exact h.not_behind fun x hx => not_isSeparator_of_isAsciiWord hx
  have hsign : IsLongest minus c.rest [] c.rest := by
    refine isLongest_optionally_iff.mpr (.inr ⟨?_, rfl, rfl⟩)
    refine not_prefix_of_any_head? (p := (· = '-')) (consistsOf_oneOf fun _ h => h).beginsWith
      (nil_notMem_oneOf _) ?_
    obtain ⟨x, more, rfl, hx⟩ := exists_cons_of_mem_plainNumbers h.mem
    rw [h.rest_eq, List.cons_append, List.head?_cons, Option.any_some, decide_eq_false_iff_not]
    rintro rfl
    cases hx
  have hunsigned := hmantissa.mul apart_mantissas_exponents hexponent
  rw [List.append_nil] at hunsigned
  exact hsign.mul isUnsigned_unsignedDecimalNumbers.apart_minus hunsigned

theorem matchEnd_signedNumber : signedNumber.matchEnd c = some (c.pass number back) := by
  refine (takesLongest_signedNumber c _).mpr ⟨number, back, h.isLongest_decimalNumbers, ?_, rfl⟩
  obtain ⟨x, more, rfl, hx⟩ := exists_cons_of_mem_plainNumbers h.mem
  simp [HasEdge, hx, h.before]

/-- A hexadecimal number holds no separator, so that it would lie in the number. -/
theorem not_takes_hexNumber : ¬hexNumber.Takes ⟨c, d⟩ := by
  intro htakes
  obtain ⟨hex, rest, hlongest, -⟩ := exists_isLongest_of_takes takesLongest_hexNumber htakes
  have hall : ∀ x ∈ hex, (!isSeparator x) = true := consistsOf_hexNumbers hex hlongest.mem
  have hnumber : ∀ x ∈ number, (!isSeparator x) = true := fun x hx => by
    rw [not_isSeparator_of_isDigitOrPoint (isDigitOrPoint_of_mem_plainNumbers h.mem x hx)]
    rfl
  have hwithin : IsLongest (anyOf fun x => !isSeparator x) c.rest number back :=
    isLongest_anyOf_iff.mpr ⟨h.rest_eq, hnumber, h.not_behind fun x hx => by simpa using hx⟩
  have hpre : hex <+: number := List.prefix_of_prefix_length_le ⟨rest, hlongest.text_eq.symm⟩
    ⟨back, h.rest_eq.symm⟩ (hwithin.longest hex hall ⟨rest, hlongest.text_eq.symm⟩)
  obtain ⟨_, -, _, ⟨_, -, _, ⟨_, ⟨mark, hmark, rfl⟩, digits, -, rfl⟩, rfl⟩, rfl⟩ := hlongest.mem
  have hdecimal : isDigitOrPoint mark :=
    isDigitOrPoint_of_mem_plainNumbers h.mem mark (hpre.subset (by simp))
  rcases Bool.or_eq_true_iff.mp hmark with heq | heq <;>
    · rw [of_decide_eq_true heq] at hdecimal
      cases hdecimal

/-- Both forms take the number and nothing else. -/
theorem exists_takes_iff (form : NumberForm) :
    (∃ p ∈ numberVariants form, p.Takes ⟨c, d⟩) ↔ d = c.pass number back := by
  have htakes : ∀ {p : Pattern}, p.matchEnd c = some (c.pass number back) →
      (p.Takes ⟨c, d⟩ ↔ d = c.pass number back) := fun hends =>
    ⟨fun ht => Option.some.inj (ht.ends.symm.trans hends), fun heq => heq ▸ ⟨hends, h.lt_pass⟩⟩
  cases form with
  | baseMode =>
      rw [← htakes h.matchEnd_signedNumber]
      simp [numberVariants, h.not_takes_hexNumber]
  | singlePattern =>
      rw [← htakes h.matchEnd_plainNumber]
      simp [numberVariants]

theorem tokensFrom_eq {a : Cursor} (hle : a ≤ c) (hcalm : Calm a c) :
    (highlighter options).tokensFrom a = wordSpans options a.offset (a.textTo c) ++
      ([⟨some .number, c.offset, (c.pass number back).offset⟩].filter Span.isToken ++
        (highlighter options).tokensFrom (c.pass number back)) := by
  obtain ⟨p, hp, htakes⟩ := (h.exists_takes_iff options.number).mpr rfl
  refine tokensFrom_of_calm hle hcalm
    ⟨_, List.mem_cons_of_mem _ List.mem_cons_self, p, hp, _, htakes⟩ ?_
  intro rule hrule q hq begun htakes'
  rcases List.mem_pair.mp hrule with rfl | rfl
  · obtain rfl := List.mem_singleton.mp hq
    obtain ⟨rest, hquote, -⟩ := takes_quotePattern_iff.mp htakes'
    obtain ⟨x, more, rfl, hx⟩ := exists_cons_of_mem_plainNumbers h.mem
    obtain rfl := (List.cons.inj (h.rest_eq.symm.trans hquote)).1
    cases hx
  · obtain rfl := (h.exists_takes_iff options.number).mp ⟨q, hq, htakes'⟩
    rfl

end StandsAlone

/-! ## Strings -/

theorem not_takes_number_of_quote {p : Pattern} (hp : p ∈ numberVariants form)
    (hquote : c.rest.head? = some '"') : ¬p.Takes ⟨c, d⟩ := by
  intro htakes
  have hmay := mayBeginNumber_of_takes hp htakes
  rw [mayBeginNumber, hquote] at hmay
  cases hmay

theorem takesFirst_quotePattern {body : List Char} (hc : c.rest = body ++ '"' :: back)
    (hbody : ∀ x ∈ body, isStringChar x) :
    quotePattern.TakesFirst c
      ⟨c.pass body ('"' :: back), (c.pass body ('"' :: back)).pass ['"'] back⟩ := by
  refine ⟨c.le_pass hc, takes_quotePattern_iff.mpr ⟨back, rfl, rfl⟩, fun t hct ht => ?_⟩
  obtain ⟨rest, hrest, -⟩ := takes_quotePattern_iff.mp ht
  exact Cursor.pass_le_of_rest hbody hc hct (by rw [hrest]; rfl)

/-- A quote, characters that a string may hold and another quote are the token behind a calm
stretch. -/
theorem tokensFrom_of_string {a : Cursor} {string : List Char} (hle : a ≤ c) (hcalm : Calm a c)
    (hc : c.rest = string ++ back) (hstring : string ∈ ItemKind.string.texts) :
    (highlighter options).tokensFrom a = wordSpans options a.offset (a.textTo c) ++
      ([⟨some .string, c.offset, (c.pass string back).offset⟩].filter Span.isToken ++
        (highlighter options).tokensFrom (c.pass string back)) := by
  obtain ⟨_, ⟨x, hx, rfl⟩, _, ⟨body, hbody, _, ⟨y, hy, rfl⟩, rfl⟩, rfl⟩ := hstring
  obtain rfl := of_decide_eq_true hx
  obtain rfl := of_decide_eq_true hy
  have hc' : c.rest = '"' :: (body ++ '"' :: back) := by simpa using hc
  have hopening : quotePattern.Takes ⟨c, c.pass ['"'] (body ++ '"' :: back)⟩ :=
    takes_quotePattern_iff.mpr ⟨_, hc', rfl⟩
  have hclose := takesFirst_quotePattern (c := c.pass ['"'] (body ++ '"' :: back)) rfl hbody
  have hnot : '\n' ∉ body := fun hmem => absurd (hbody '\n' hmem) (by decide)
  refine tokensFrom_of_calm hle hcalm
    ⟨_, List.mem_cons_self, quotePattern, List.mem_cons_self, _, hopening⟩ ?_
  intro rule hrule q hq begun htakes
  rcases List.mem_pair.mp hrule with rfl | rfl
  · obtain rfl := List.mem_singleton.mp hq
    obtain rfl : begun = c.pass ['"'] (body ++ '"' :: back) :=
      congrArg Stretch.stop (htakes.eq hopening rfl)
    rw [CompiledRule.take_eq_token hclose (by rwa [Cursor.textTo_pass rfl])]
    simp only [Cursor.pass_pass]
    rfl
  · exact absurd htakes (not_takes_number_of_quote hq (by rw [hc', List.head?_cons]))

/-! ## The scan over items -/

/-- A number or a string is the token behind a calm stretch. -/
theorem tokensFrom_of_item (hkind : item.kind ≠ .word)
    (hle : c ≤ .between front (item.text ++ back))
    (hcalm : Calm c (.between front (item.text ++ back)))
    (hbefore : front.getLast?.any isAsciiWord = false) (hbehind : back.head?.all isSeparator) :
    (highlighter options).tokensFrom c =
      wordSpans options c.offset (c.textTo (.between front (item.text ++ back))) ++
        ([item.span (wordCategory options) front].filter Span.isToken ++
          (highlighter options).tokensFrom (.between (front ++ item.text) back)) := by
  have hmem := item.text_mem
  rw [← Cursor.between_pass]
  cases hkind' : item.kind with
  | word => exact absurd hkind' hkind
  | number =>
      rw [hkind'] at hmem
      have halone : StandsAlone (.between front (item.text ++ back)) item.text back :=
        ⟨rfl, hmem, (Cursor.before_between front _).symm ▸ hbefore, hbehind⟩
      rw [halone.tokensFrom_eq hle hcalm, Item.span, hkind', Cursor.between_pass]
      rfl
  | string =>
      rw [hkind'] at hmem
      rw [tokensFrom_of_string hle hcalm rfl hmem, Item.span, hkind', Cursor.between_pass]
      rfl

/-- A word and the separator behind it add the word to a stretch that does not end with one. -/
theorem wordSpans_textTo_of_word (hkind : item.kind = .word)
    (hle : c ≤ .between front (item.text ++ (item.separator ++ back)))
    (hbefore : front.getLast?.any isAsciiWord = false) :
    wordSpans options c.offset (c.textTo (.between (front ++ item.chars) back)) =
      wordSpans options c.offset
          (c.textTo (.between front (item.text ++ (item.separator ++ back)))) ++
        [item.span (wordCategory options) front].filter Span.isToken := by
  have hword := item.text_mem
  rw [hkind] at hword
  have hchars : item.text ++ (item.separator ++ back) = item.chars ++ back :=
    (List.append_assoc _ _ _).symm
  rw [hchars] at hle ⊢
  have htext : (Cursor.between front (item.chars ++ back)).textTo
      (.between (front ++ item.chars) back) = item.chars := by
    rw [← Cursor.between_pass, Cursor.textTo_pass rfl]
  have hcut := Cursor.any_getLast?_textTo hle ((Cursor.before_between front _).symm ▸ hbefore)
  have hbehind : item.separator.head?.any isAsciiWord = false :=
    any_eq_false_of_all_isSeparator (fun x hx => not_isSeparator_of_isAsciiWord hx) item.head?_all
  have hoffset : c.offset + byteSize (c.textTo (.between front (item.chars ++ back))) =
      byteSize front := (Cursor.offset_eq_add_byteSize_textTo hle).symm
  rw [← Cursor.textTo_append_textTo hle (Cursor.between_le front item.chars back), htext,
    wordSpans_append (.inl hcut), hoffset, Item.chars, wordSpans_append (.inr hbehind),
    wordSpans_of_mem_identifiers hword, wordSpans_of_all_isSeparator item.separator_all,
    List.append_nil, wordSpan, Item.span, hkind, Span.covering, byteSize_append]

namespace Item

theorem calm_of_word (item : Item) (hkind : item.kind = .word) (front back : List Char) :
    Calm (.between front (item.text ++ back)) (.between (front ++ item.text) back) := by
  have hmem := item.text_mem
  rw [hkind] at hmem
  rw [← Cursor.between_pass]
  exact calm_of_mem_identifiers hmem rfl

theorem between_behind (item : Item) (front back : List Char) :
    (Cursor.between (front ++ item.text) (item.separator ++ back)).pass item.separator back =
      .between (front ++ item.chars) back := by
  rw [Cursor.between_pass, List.append_assoc, chars]

theorem between_le_behind (item : Item) (front back : List Char) :
    Cursor.between (front ++ item.text) (item.separator ++ back) ≤
      .between (front ++ item.chars) back :=
  item.between_behind front back ▸ Cursor.le_pass _ rfl

theorem calm_separator (item : Item) (front back : List Char) :
    Calm (.between (front ++ item.text) (item.separator ++ back))
      (.between (front ++ item.chars) back) :=
  item.between_behind front back ▸ calm_of_all_isSeparator item.separator_all rfl

theorem textTo_behind (item : Item) (front back : List Char) :
    (Cursor.between (front ++ item.text) (item.separator ++ back)).textTo
      (.between (front ++ item.chars) back) = item.separator := by
  rw [← between_behind, Cursor.textTo_pass rfl]

end Item

/-- Over a calm stretch and the items behind it the scan finds the words of the one and the spans of
the others. -/
theorem tokensFrom_eq_append_itemSpans (hle : c ≤ .between front (charsOf items))
    (hcalm : Calm c (.between front (charsOf items))) (hseparated : Separated items)
    (hbefore : items ≠ [] → front.getLast?.any isAsciiWord = false) :
    (highlighter options).tokensFrom c =
      wordSpans options c.offset (c.textTo (.between front (charsOf items))) ++
        (itemSpans (wordCategory options) front items).filter Span.isToken := by
  -- The calm stretch grows over a word, and begins anew behind a number or a string.
  induction items generalizing c front with
  | nil => rw [tokensFrom_of_calm_end hle hcalm rfl, itemSpans, List.filter_nil, List.append_nil]
  | cons item items ih =>
      rw [charsOf_cons] at hle hcalm ⊢
      have hbefore := hbefore (List.cons_ne_nil _ _)
      have hseparator := item.between_le_behind front (charsOf items)
      have hcalm' := item.calm_separator front (charsOf items)
      have hrest : ∀ {a : Cursor}, a ≤ .between (front ++ item.chars) (charsOf items) →
          Calm a (.between (front ++ item.chars) (charsOf items)) → _ := fun ha hcalm =>
        ih ha hcalm hseparated.tail fun hne => hseparated.any_getLast? hne front
      rw [itemSpans, ← List.singleton_append, List.filter_append]
      by_cases hkind : item.kind = .word
      · have hword := Cursor.between_le front item.text (item.separator ++ charsOf items)
        have hcalm_word := (item.calm_of_word hkind front _).trans hcalm' hword
        rw [hrest (hle.trans (hword.trans hseparator)) (hcalm.trans hcalm_word hle),
          wordSpans_textTo_of_word hkind hle hbefore, List.append_assoc]
      · rw [tokensFrom_of_item hkind hle hcalm hbefore hseparated.head?_all,
          hrest hseparator hcalm', item.textTo_behind,
          wordSpans_of_all_isSeparator item.separator_all, List.nil_append]

/-! ## Texts of items -/

/-- The tokens of a text of separate items are those of its items. -/
theorem tokensFrom_eq_itemSpans (hlead : ∀ x ∈ lead, isSeparator x) (hseparated : Separated items)
    (htext : text.toList = lead ++ charsOf items) :
    (highlighter options).tokensFrom (.atStart text.toList 0) =
      (itemSpans (wordCategory options) lead items).filter Span.isToken := by
  have hpass := Cursor.between_pass [] lead (charsOf items)
  have hcalm : Calm (.between [] (lead ++ charsOf items)) (.between lead (charsOf items)) :=
    hpass ▸ calm_of_all_isSeparator hlead rfl
  have htextTo : (Cursor.between [] (lead ++ charsOf items)).textTo
      (.between lead (charsOf items)) = lead := hpass ▸ Cursor.textTo_pass rfl
  have hle : Cursor.between [] (lead ++ charsOf items) ≤ .between lead (charsOf items) :=
    Cursor.between_le [] lead (charsOf items)
  rw [htext, Cursor.atStart_eq_between, tokensFrom_eq_append_itemSpans hle hcalm hseparated
    fun _ => any_getLast?_of_all_isSeparator hlead, htextTo, wordSpans_of_all_isSeparator hlead,
    List.nil_append]

/-- Grammars that differ in the form of numbers only highlight a text of separate items alike, and
each plain number among the items is one span. -/
theorem highlight_items_alike (options : AlakonOptions) (form form' : NumberForm)
    (hlead : ∀ x ∈ lead, isSeparator x) (hseparated : Separated items)
    (htext : text.toList = lead ++ charsOf items) :
    ∃ h h',
      Highlighter.ofGrammar Pattern.ofString? (alakon { options with number := form }) = .ok h ∧
      Highlighter.ofGrammar Pattern.ofString? (alakon { options with number := form' }) = .ok h' ∧
      h.highlight text = h'.highlight text ∧
      ∀ before item after, items = before ++ item :: after → item.kind = .number →
        .covering (some .number) (lead ++ charsOf before) item.text ∈ h.highlight text := by
  refine ⟨_, _, ofGrammar_alakon _, ofGrammar_alakon _, ?_, ?_⟩
  · -- The form of numbers has no part in the categories of words.
    rw [Highlighter.highlight_eq_fill, Highlighter.highlight_eq_fill,
      tokensFrom_eq_itemSpans hlead hseparated htext,
      tokensFrom_eq_itemSpans hlead hseparated htext]
    rfl
  · rintro before item after rfl hkind
    have hspan : item.span (wordCategory { options with number := form })
        (lead ++ charsOf before) =
        .covering (some .number) (lead ++ charsOf before) item.text := by
      rw [Item.span, hkind]
    have hne : item.text ≠ [] := by
      have hmem := item.text_mem
      rw [hkind] at hmem
      exact ne_nil_of_mem_plainNumbers hmem
    rw [Highlighter.mem_highlight_iff rfl, tokensFrom_eq_itemSpans hlead hseparated htext,
      List.mem_filter]
    exact ⟨hspan ▸ mem_itemSpans before item after,
      Span.isToken_iff.mpr ⟨rfl, (Span.covering_start_lt_stop _ _ hne).ne⟩⟩

/-- The signs are no separators, but next to a plain number a plus may stand. -/
theorem highlight_items_alike_between_signs :
    ∃ h h', Highlighter.ofGrammar Pattern.ofString?
        (alakon { AlakonOptions.classic with number := .baseMode }) =
        .ok h ∧
      Highlighter.ofGrammar Pattern.ofString?
        (alakon { AlakonOptions.classic with number := .singlePattern }) =
        .ok h' ∧
      h.highlight "+num(0.5+\"x-1\"" = h'.highlight "+num(0.5+\"x-1\"" ∧
      .covering (some .number) ['+', 'n', 'u', 'm', '('] ['0', '.', '5'] ∈
        h.highlight "+num(0.5+\"x-1\"" := by
  have hdigit : ∀ x, isAsciiDigit x → [x] ∈ someOf isAsciiDigit := fun x hx =>
    ⟨List.cons_ne_nil x [], List.forall_mem_singleton.mpr hx⟩
  have hword : ['n', 'u', 'm'] ∈ identifiers :=
    cons_mem_identifiers.mpr ⟨rfl, List.all_eq_true.mp rfl⟩
  have hnumber : ['0', '.', '5'] ∈ plainNumbers :=
    ⟨['0'], hdigit '0' rfl, ['.', '5'], .inr ⟨['.'], ⟨'.', rfl, rfl⟩, ['5'], hdigit '5' rfl, rfl⟩,
      rfl⟩
  have hstring : ['"', 'x', '-', '1', '"'] ∈ ItemKind.string.texts :=
    ⟨['"'], ⟨'"', rfl, rfl⟩, ['x', '-', '1', '"'],
      ⟨['x', '-', '1'], mem_anyOf.mpr (List.all_eq_true.mp rfl), ['"'], ⟨'"', rfl, rfl⟩, rfl⟩, rfl⟩
  let word : Item :=
    ⟨.word, ['n', 'u', 'm'], ['('], hword, List.all_eq_true.mp rfl⟩
  let number : Item := ⟨.number, ['0', '.', '5'], ['+'], hnumber, List.all_eq_true.mp rfl⟩
  let string : Item :=
    ⟨.string, ['"', 'x', '-', '1', '"'], [], hstring, List.all_eq_true.mp rfl⟩
  have hseparated : Separated [word, number, string] :=
    .cons_cons (List.cons_ne_nil _ _) (.cons_cons (List.cons_ne_nil _ _) (.singleton _))
  have hlead : ∀ x ∈ ['+'], isSeparator x := List.all_eq_true.mp rfl
  have htext : "+num(0.5+\"x-1\"".toList = ['+'] ++ charsOf [word, number, string] := rfl
  obtain ⟨h, h', hread, hread', halike, hspans⟩ :=
    highlight_items_alike .classic .baseMode .singlePattern hlead hseparated htext
  exact ⟨h, h', hread, hread', halike, hspans [word] number [string] rfl rfl⟩

end Alakon

end CodeTint
