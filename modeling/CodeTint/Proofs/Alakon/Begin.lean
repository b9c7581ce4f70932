import CodeTint.Proofs.Alakon.Identifiers
import CodeTint.Proofs.Alakon.PlainNumbers
import CodeTint.Proofs.Alakon.SignedNumbers

/-!
# Where the rules of Alakon may begin

In either form of numbers a rule begins at a quote, a sign, a point, or a digit that does not stand
behind a word character (`mayBegin_of_takes`). Between two places at none of which this is so, the
text is calm: no rule begins there, so that the scan goes on to the second place and leaves what it
passes to the search for words (`tokensFrom_of_calm`, `tokensFrom_of_calm_end`).
-/

namespace CodeTint

namespace Alakon

variable {options : AlakonOptions} {c d e : Cursor} {s : Stretch} {run back : List Char}

/-! ## Beginnings -/

/-- A sign, a point or a digit follows, and the digit does not stand behind a word character. -/
def mayBeginNumber (c : Cursor) : Bool :=
  c.rest.head?.any fun x => x = '-' || x = '.' || (isAsciiDigit x && !c.before.any isAsciiWord)

/-- A quote follows, or what a number may begin with. -/
def mayBegin (c : Cursor) : Bool :=
  c.rest.head?.any (· = '"') || mayBeginNumber c

theorem mayBeginNumber_of_takesLongest {p : Pattern} {U : Language Char} (hU : IsUnsigned U)
    (hp : TakesLongest p (minus * U)) (hs : p.Takes s) : mayBeginNumber s.start := by
  obtain ⟨_, back, hlongest, hedge, -⟩ := exists_isLongest_of_takes hp hs
  obtain ⟨sign, hsign, u, hu, rfl⟩ := hlongest.mem
  obtain ⟨x, more, rfl, hx⟩ := hU.exists_cons hu
  have hrest := hlongest.text_eq
  rcases mem_optionally.mp hsign with rfl | ⟨y, hy, rfl⟩
  · -- Without a sign the digits have the edge where the number begins.
    have hx' := hx
    rw [isDigitOrPoint, Bool.or_eq_true] at hx'
    rcases hx' with hdigit | hpoint
    · have hedge' : s.start.before.any isAsciiWord = false := by
        simpa [HasEdge, hdigit] using hedge
      simp [mayBeginNumber, hrest, hdigit, hedge']
    · simp [mayBeginNumber, hrest, of_decide_eq_true hpoint]
  · simp [mayBeginNumber, hrest, of_decide_eq_true hy]

theorem mayBeginNumber_of_takes {form : NumberForm} {p : Pattern} (hp : p ∈ numberVariants form)
    (hs : p.Takes s) : mayBeginNumber s.start := by
  cases form with
  | baseMode =>
      rcases List.mem_pair.mp hp with rfl | rfl
      · exact mayBeginNumber_of_takesLongest isUnsigned_unsignedHexNumbers takesLongest_hexNumber hs
      · exact mayBeginNumber_of_takesLongest isUnsigned_unsignedDecimalNumbers
          takesLongest_signedNumber hs
  | singlePattern =>
      obtain rfl := List.mem_singleton.mp hp
      obtain ⟨_, back, hrest, ⟨digits, hdigits, fraction, -, rfl⟩, hbefore, -⟩ :=
        exists_of_matchEnd_plainNumber hs.ends
      obtain ⟨x, more, rfl⟩ := List.exists_cons_of_ne_nil hdigits.1
      have hx := hdigits.2 x List.mem_cons_self
      simp [mayBeginNumber, hrest, hx, hbefore]

theorem mayBegin_of_takes {rule : CompiledRule} (hrule : rule ∈ (highlighter options).rules)
    {p : Pattern} (hp : p ∈ rule.beginPatterns) (hs : p.Takes s) : mayBegin s.start := by
  rcases List.mem_pair.mp hrule with rfl | rfl
  · obtain rfl := List.mem_singleton.mp hp
    obtain ⟨rest, hrest, -⟩ := takes_quotePattern_iff.mp hs
    simp [mayBegin, hrest]
  · rw [mayBegin, mayBeginNumber_of_takes hp hs, Bool.or_true]

/-! ## Calm stretches -/

/-- From the first place up to the second one no rule may begin. -/
def Calm (c d : Cursor) : Prop :=
  ∀ e, c ≤ e → e < d → mayBegin e = false

theorem Calm.refl (c : Cursor) : Calm c c :=
  fun _ hle hlt => absurd hlt (not_lt_of_ge hle)

theorem Calm.trans (h : Calm c d) (h' : Calm d e) (hcd : c ≤ d) : Calm c e := by
  intro place hle hlt
  rcases Cursor.lt_or_le hle hcd with hbefore | hbehind
  · exact h place hle hbefore
  · exact h' place hbehind hlt

/-- A word is calm: behind its first letter every digit stands behind a word character. -/
theorem calm_of_mem_identifiers (hword : run ∈ identifiers) (hc : c.rest = run ++ back) :
    Calm c (c.pass run back) := by
  have hall := isAsciiWord_of_mem_identifiers hword
  intro place hle hlt
  obtain ⟨x, rest, hrest, hx⟩ :=
    exists_cons_of_any_head? (Cursor.any_head?_of_lt_pass hall hc hle hlt)
  have hdigit : (isAsciiDigit x && !place.before.any isAsciiWord) = false := by
    rcases eq_or_lt_of_le hle with rfl | hbehind
    · obtain ⟨y, more, rfl, hy, -⟩ := exists_cons_of_mem_identifiers hword
      obtain rfl : y = x := (List.cons.inj (hc.symm.trans hrest)).1
      rw [isAsciiDigit_eq_false_of_isAsciiLetter hy, Bool.false_and]
    · rw [Cursor.any_before_of_le_pass hall hc hbehind hlt.le, Bool.not_true, Bool.and_false]
  have hne : ∀ y, isAsciiWord y = false → x ≠ y := by
    rintro y hy rfl
    rw [hx] at hy
    cases hy
  simp [mayBegin, mayBeginNumber, hrest, hdigit, hne '"' rfl, hne '-' rfl, hne '.' rfl]

/-! ## The scan over a calm stretch -/

theorem Calm.le_start (hcalm : Calm c d) (hcd : c ≤ d) {rule : CompiledRule}
    (hrule : rule ∈ (highlighter options).rules) {p : Pattern} (hp : p ∈ rule.beginPatterns)
    (hle : c ≤ s.start) (htakes : p.Takes s) : d ≤ s.start := by
  refine (Cursor.lt_or_le hle hcd).resolve_left fun hlt => ?_
  have hmay := mayBegin_of_takes hrule hp htakes
  rw [hcalm _ hle hlt] at hmay
  cases hmay

/-- At the end of a calm stretch the rule begins that can. -/
theorem exists_earliestRule_of_calm (hcd : c ≤ d) (hcalm : Calm c d) {rule : CompiledRule}
    (hrule : rule ∈ (highlighter options).rules) {p : Pattern} (hp : p ∈ rule.beginPatterns)
    {stop : Cursor} (htakes : p.Takes ⟨d, stop⟩) :
    ∃ candidate, (highlighter options).earliestRule c = some candidate ∧
      candidate.rule ∈ (highlighter options).rules ∧ candidate.begin.start = d ∧
      ∃ p ∈ candidate.rule.beginPatterns, p.Takes candidate.begin := by
  cases hbest : (highlighter options).earliestRule c with
  | none =>
      exact absurd htakes (Highlighter.earliestRule_eq_none_iff.mp hbest rule hrule p hp _ hcd)
  | some candidate =>
      obtain ⟨hmem, hbegins⟩ := Highlighter.beginsFirst_of_earliestRule hbest
      obtain ⟨hle, q, hq, htakes'⟩ := hbegins.exists_takes
      refine ⟨candidate, rfl, hmem, ?_, q, hq, htakes'⟩
      refine le_antisymm ?_ (hcalm.le_start hcd hmem hq hle htakes')
      refine (Cursor.lt_or_le hcd hle).resolve_left fun hlt => ?_
      exact Highlighter.accounts_gap_of_earliestRule hbest rule hrule p hp _ hcd hlt htakes

/-- Behind a calm stretch stands the token of whatever rule begins there, if all of them agree on
it; before it there are only words. -/
theorem tokensFrom_of_calm (hcd : c ≤ d) (hcalm : Calm c d) {category : Category} {stop : Cursor}
    (hbegins : ∃ rule ∈ (highlighter options).rules, ∃ p ∈ rule.beginPatterns, ∃ begun,
      p.Takes ⟨d, begun⟩)
    (htake : ∀ rule ∈ (highlighter options).rules, ∀ p ∈ rule.beginPatterns, ∀ begun,
      p.Takes ⟨d, begun⟩ →
        rule.take ⟨d, begun⟩ = ⟨[⟨some category, d.offset, stop.offset⟩], stop⟩) :
    (highlighter options).tokensFrom c = wordSpans options c.offset (c.textTo d) ++
      ([⟨some category, d.offset, stop.offset⟩].filter Span.isToken ++
        (highlighter options).tokensFrom stop) := by
  obtain ⟨rule, hrule, p, hp, _, htakes⟩ := hbegins
  obtain ⟨⟨index, rule, start, begun⟩, hbest, hmem, rfl, q, hq, htakes'⟩ :=
    exists_earliestRule_of_calm hcd hcalm hrule hp htakes
  rw [Highlighter.tokensFrom_of_earliestRule hbest, htake _ hmem q hq _ htakes']
  rfl

theorem tokensFrom_of_calm_end (hcd : c ≤ d) (hcalm : Calm c d) (hd : d.rest = []) :
    (highlighter options).tokensFrom c = wordSpans options c.offset (c.textTo d) := by
  have hnone : (highlighter options).earliestRule c = none :=
    Highlighter.earliestRule_eq_none_iff.mpr fun rule hrule p hp t hct htakes =>
      htakes.rest_ne_nil (hcalm.le_start hcd hrule hp hct htakes) hd
  have hrest : c.rest = c.textTo d := by
    rw [Cursor.rest_eq_textTo_append hcd, hd, List.append_nil]
  rw [Highlighter.tokensFrom_of_earliestRule_eq_none hnone, hrest]
  rfl

end Alakon

end CodeTint
