import CodeTint.Proofs.Highlight.Lookahead
import CodeTint.Proofs.Highlight.Partition

/-!
# The pieces of a scan

A scan cuts the text into pieces: tokens, openings of rejected regions, and the gaps between them.
What the scan does in one step is said once, in `take_spec` for the rule that begins and in
`scanPart_spec` for the step as a whole, together with the reason for it: a gap is where no rule
begins, a token is what its rule describes, and a region is rejected only if it is not closed or
holds something illegal. `scanAfreshFrom_spec` carries this to the whole scan.
-/

namespace CodeTint

/-! ## Tokens and rejected openings -/

/-- The pattern has a match that starts in the body of a region, when the text is searched as if it
ended where the body does. -/
def Pattern.OccursWithin (p : Pattern) (body stop : Cursor) : Prop :=
  ∃ d, body ≤ d ∧ d < stop ∧ (p.matchEnd (d.cutAt stop)).isSome

theorem isIllegalWithin_iff {p : Pattern} [p.Leftmost] {body : Cursor} {closing : Stretch}
    (hbody : body ≤ closing.start) :
    isIllegalWithin p body closing = true ↔ p.OccursWithin body closing.start := by
  unfold isIllegalWithin
  cases hfind : p.find (body.cutAt closing.start) with
  | none =>
      constructor
      · intro h
        cases h
      · rintro ⟨d, hd, hlt, hends⟩
        rw [Pattern.find_eq_none_iff.mp hfind _ (Cursor.cutAt_le_cutAt hd hlt.le)] at hends
        cases hends
  | some found =>
      obtain ⟨hle, hends, -⟩ := Pattern.find_eq_some hfind
      obtain ⟨d, hd, -, hstart⟩ := Cursor.exists_of_le_cutAt hbody hle
      rw [hstart] at hends
      constructor
      · intro h
        have hlt : found.start.offset < closing.start.offset := of_decide_eq_true h
        rw [hstart] at hlt
        exact ⟨d, hd, Cursor.lt_of_offset_lt hd hbody hlt, by rw [hends, Option.isSome_some]⟩
      · rintro ⟨e, he, hlt, hends'⟩
        obtain ⟨stop, hstop⟩ := Option.isSome_iff_exists.mp hends'
        have hle' := Cursor.offset_le
          (Pattern.start_le_of_find_eq_some hfind (Cursor.cutAt_le_cutAt he hlt.le) hstop)
        exact decide_eq_true (Nat.lt_of_le_of_lt hle' (Cursor.lt_iff.mp hlt).2)

namespace CompiledRule

/-- The stretch is a token of the category under the rule: a match of a variant, or a region up to
its first closing with nothing illegal in its body. -/
inductive HasToken : CompiledRule → Category → Stretch → Prop
  | variant {category : Category} {variants : List Pattern} {p : Pattern} {s : Stretch}
      (mem : p ∈ variants) (takes : p.Takes s) : HasToken (pattern category variants) category s
  | closed {category : Category} {opening closing : Pattern} {illegal : Option Pattern}
      {begin close : Stretch} (takes : opening.Takes begin)
      (closes : closing.TakesFirst begin.stop close)
      (legal : ∀ p ∈ illegal, ¬p.OccursWithin begin.stop close.start) :
      HasToken (region category opening closing illegal) category ⟨begin.start, close.stop⟩

/-- The stretch is the opening of a region that is no token: the region is not closed, or its body
holds something illegal. -/
inductive Rejects : CompiledRule → Stretch → Prop
  | unclosed {category : Category} {opening closing : Pattern} {illegal : Option Pattern}
      {begin : Stretch} (takes : opening.Takes begin)
      (unclosed : ∀ t, begin.stop ≤ t.start → ¬closing.Takes t) :
      Rejects (region category opening closing illegal) begin
  | illegal {category : Category} {opening closing p : Pattern} {begin close : Stretch}
      (takes : opening.Takes begin) (closes : closing.TakesFirst begin.stop close)
      (occurs : p.OccursWithin begin.stop close.start) :
      Rejects (region category opening closing (some p)) begin

/-- A rule that begins takes a token, or is rejected and leaves its opening. -/
theorem take_spec {rule : CompiledRule} [rule.Leftmost] {begin : Stretch}
    (hbegin : ∃ p ∈ rule.beginPatterns, p.Takes begin) :
    (∃ category stop, begin.stop ≤ stop ∧ rule.HasToken category ⟨begin.start, stop⟩ ∧
      rule.take begin = ⟨[⟨some category, begin.start.offset, stop.offset⟩], stop⟩) ∨
    (rule.Rejects begin ∧
      rule.take begin = ⟨[⟨none, begin.start.offset, begin.stop.offset⟩], begin.stop⟩) := by
  obtain ⟨p, hp, htakes⟩ := hbegin
  cases rule with
  | pattern category variants =>
      exact Or.inl ⟨category, begin.stop, le_refl _, .variant hp htakes, rfl⟩
  | region category opening closing illegal =>
      obtain rfl := List.mem_singleton.mp hp
      obtain ⟨-, hclosing, hillegal⟩ := leftmost_region_iff.mp ‹_›
      cases hclose : closing.findNonEmpty begin.stop with
      | none =>
          exact Or.inr ⟨.unclosed htakes (Pattern.findNonEmpty_eq_none_iff.mp hclose),
            by simp [take, hclose]⟩
      | some close =>
          have hcloses := Pattern.findNonEmpty_eq_some_iff.mp hclose
          cases illegal with
          | none =>
              have hlegal : ∀ q ∈ (none : Option Pattern),
                  ¬q.OccursWithin begin.stop close.start :=
                fun q hq => absurd hq (Option.not_mem_none q)
              exact Or.inl ⟨category, close.stop,
                hcloses.le_start.trans hcloses.takes.start_lt_stop.le,
                .closed htakes hcloses hlegal, by simp [take, hclose]⟩
          | some q =>
              have hq := hillegal q rfl
              by_cases hillegal : isIllegalWithin q begin.stop close = true
              · exact Or.inr ⟨.illegal htakes hcloses
                  ((isIllegalWithin_iff hcloses.le_start).mp hillegal),
                  by simp [take, hclose, hillegal]⟩
              · have hlegal : ∀ q' ∈ some q, ¬q'.OccursWithin begin.stop close.start := by
                  intro q' hq'
                  obtain rfl := Option.some.inj hq'
                  exact fun h => hillegal ((isIllegalWithin_iff hcloses.le_start).mpr h)
                exact Or.inl ⟨category, close.stop,
                  hcloses.le_start.trans hcloses.takes.start_lt_stop.le,
                  .closed htakes hcloses hlegal, by simp [take, hclose, hillegal]⟩

end CompiledRule

/-! ## Words -/

namespace Highlighter

variable {h : Highlighter}

/-- The stretch is a word of the category in the gap, which is searched as a text of its own. -/
structure IsWord (h : Highlighter) (gap : Stretch) (category : Category) (word : Stretch) : Prop
    where
  within : gap.start.alone gap.stop ≤ word.start
  takes : h.wordPattern.Takes word
  classified : h.classifyWord (String.ofList word.text) = some category

theorem FindsWord.isWord [h.Leftmost] {gap word : Stretch} {category : Category}
    (hword : h.FindsWord gap category word) : h.IsWord gap category word := by
  obtain ⟨⟨c, hle, hfind⟩, hclassified⟩ := hword
  have hfirst := Pattern.findNonEmpty_eq_some_iff.mp hfind
  exact ⟨hle.trans hfirst.le_start, hfirst.takes, hclassified⟩

end Highlighter

/-! ## Pieces -/

/-- What a scan makes of a stretch of the text. -/
inductive Piece where
  /-- Text that no rule claims. -/
  | gap (stretch : Stretch)
  /-- A token of a rule. -/
  | token (category : Category) (stretch : Stretch)
  /-- The opening of a region that is no token. -/
  | rejected (stretch : Stretch)

namespace Piece

def stretch : Piece → Stretch
  | gap stretch => stretch
  | token _ stretch => stretch
  | rejected stretch => stretch

def isGap : Piece → Bool
  | gap _ => true
  | token _ _ => false
  | rejected _ => false

/-- The spans of the piece. -/
def spans (h : Highlighter) : Piece → List Span
  | gap s => h.classifyGap (s.start.alone s.stop)
  | token category s => [⟨some category, s.start.offset, s.stop.offset⟩]
  | rejected s => [⟨none, s.start.offset, s.stop.offset⟩]

end Piece

/-- The pieces lie one after another from one place to the other. -/
inductive Follow : Cursor → List Piece → Cursor → Prop
  | nil (a : Cursor) : Follow a [] a
  | cons {a b : Cursor} {piece : Piece} {pieces : List Piece} (start : piece.stretch.start = a)
      (le : a ≤ piece.stretch.stop) (rest : Follow piece.stretch.stop pieces b) :
      Follow a (piece :: pieces) b

namespace Follow

variable {a b c : Cursor} {pieces pieces' : List Piece}

theorem le (h : Follow a pieces b) : a ≤ b := by
  induction h with
  | nil a => exact le_refl a
  | cons _ hle _ ih => exact hle.trans ih

theorem append (h : Follow a pieces b) (h' : Follow b pieces' c) :
    Follow a (pieces ++ pieces') c := by
  induction h with
  | nil a => exact h'
  | cons hstart hle _ ih => exact .cons hstart hle (ih h')

/-- The pieces leave out nothing: every place before their end lies in one of them. -/
theorem exists_mem (h : Follow a pieces b) {d : Cursor} (had : a ≤ d) (hdb : d < b) :
    ∃ piece ∈ pieces, piece.stretch.start ≤ d ∧ d < piece.stretch.stop := by
  induction h with
  | nil a => exact absurd had (not_le_of_gt hdb)
  | @cons a b piece pieces hstart hle hrest ih =>
      rcases Cursor.lt_or_le had hle with hlt | hge
      · exact ⟨piece, List.mem_cons_self, hstart ▸ had, hlt⟩
      · obtain ⟨piece', hmem, hstart, hstop⟩ := ih hge hdb
        exact ⟨piece', List.mem_cons_of_mem _ hmem, hstart, hstop⟩

theorem bounds (h : Follow a pieces b) {piece : Piece} (hmem : piece ∈ pieces) :
    a ≤ piece.stretch.start ∧ piece.stretch.start ≤ piece.stretch.stop ∧
      piece.stretch.stop ≤ b := by
  induction h with
  | nil a => cases hmem
  | cons hstart hle hrest ih =>
      rcases List.mem_cons.mp hmem with rfl | hmem
      · exact ⟨hstart.ge, hstart.trans_le hle, hrest.le⟩
      · obtain ⟨hstart, hpiece, hstop⟩ := ih hmem
        exact ⟨hle.trans hstart, hpiece, hstop⟩

theorem covers (h : Highlighter) (hfollow : Follow a pieces b) :
    Covers a (pieces.flatMap (·.spans h)) b := by
  induction hfollow with
  | nil a => exact .nil a
  | @cons a b piece pieces hstart hle hrest ih =>
      refine Covers.append ?_ ih
      subst hstart
      cases piece with
      | gap s => exact (h.classifyGap_spec hle).1
      | token category s => exact .single (some category) hle
      | rejected s => exact .single none hle

end Follow

/-! ## The scan -/

namespace Highlighter

/-- What makes a stretch the piece that it is. -/
def Accounts (h : Highlighter) : Piece → Prop
  | .gap s => ∀ rule ∈ h.rules, ∀ p ∈ rule.beginPatterns, ∀ t : Stretch,
      s.start ≤ t.start → t.start < s.stop → ¬p.Takes t
  | .token category s => ∃ rule ∈ h.rules, rule.HasToken category s
  | .rejected s => ∃ rule ∈ h.rules, rule.Rejects s

variable {h : Highlighter} [h.Leftmost] {c : Cursor}

/-- Before the rule that begins earliest no rule has a match. -/
theorem accounts_gap_of_earliestRule {candidate : Candidate}
    (hbest : h.earliestRule c = some candidate) :
    h.Accounts (.gap ⟨c, candidate.begin.start⟩) := by
  obtain ⟨-, hfirst⟩ := earliestRule_eq_some_iff.mp hbest
  intro rule hrule p hp t hct hlt ht
  have := Leftmost.of_mem rule hrule
  cases hnext : rule.nextBegin c with
  | none => exact CompiledRule.nextBegin_eq_none_iff.mp hnext p hp t hct ht
  | some s =>
      have hs := CompiledRule.nextBegin_eq_some_iff.mp hnext
      obtain ⟨j, hj⟩ := List.mem_iff_getElem?.mp hrule
      have hle := Nat.le_trans (hfirst.first j rule s hj hs).1 (hs.offset_le hp hct ht)
      exact absurd (Cursor.lt_iff.mp hlt).2 (Nat.not_lt.mpr hle)

theorem accounts_gap_of_earliestRule_eq_none (hbest : h.earliestRule c = none) :
    h.Accounts (.gap ⟨c, c.atEnd⟩) :=
  fun rule hrule p hp t hct _ => earliestRule_eq_none_iff.mp hbest rule hrule p hp t hct

/-- A step of the scan: a gap, and a token or a rejected opening behind it if a rule begins. Only at
the end of the text there is none. -/
theorem scanPart_spec (h : Highlighter) [h.Leftmost] (c : Cursor) :
    ∃ pieces, (h.scanPart c (h.earliestRule c)).spans = pieces.flatMap (·.spans h) ∧
      Follow c pieces (h.scanPart c (h.earliestRule c)).next ∧
      (∀ piece ∈ pieces, h.Accounts piece) ∧
      (pieces.IsChain fun piece next => ¬(piece.isGap ∧ next.isGap)) ∧
      ∀ last ∈ pieces.getLast?, last.isGap →
        (h.scanPart c (h.earliestRule c)).next.rest = [] := by
  cases hbest : h.earliestRule c with
  | none =>
      refine ⟨[.gap ⟨c, c.atEnd⟩], ?_, .cons rfl c.le_atEnd (.nil _), ?_, .singleton _,
        fun _ _ _ => rfl⟩
      · simp [scanPart, Piece.spans, Cursor.alone, Cursor.textTo_atEnd]
      · intro piece hpiece
        rw [List.mem_singleton.mp hpiece]
        exact accounts_gap_of_earliestRule_eq_none hbest
  | some candidate =>
      have hgap := accounts_gap_of_earliestRule hbest
      obtain ⟨hmem, hbegins⟩ := beginsFirst_of_earliestRule hbest
      have := Leftmost.of_mem _ hmem
      obtain ⟨hle, p, hp, htakes⟩ := hbegins.exists_takes
      -- What follows the gap is no gap itself.
      suffices hbehind : ∃ piece, (candidate.rule.take candidate.begin).spans = piece.spans h ∧
          Follow candidate.begin.start [piece] (candidate.rule.take candidate.begin).next ∧
          h.Accounts piece ∧ piece.isGap = false by
        obtain ⟨piece, hspans, hfollow, haccounts, hpiece⟩ := hbehind
        refine ⟨[.gap ⟨c, candidate.begin.start⟩, piece], ?_, .cons rfl hle hfollow, ?_,
          .cons_cons (by simp [hpiece]) (.singleton _), ?_⟩
        · simp [scanPart, hspans, Piece.spans]
        · exact List.forall_mem_cons.mpr ⟨hgap, List.forall_mem_singleton.mpr haccounts⟩
        · intro last hlast hgap
          obtain rfl : piece = last := by simpa using hlast
          rw [hpiece] at hgap
          cases hgap
      rcases CompiledRule.take_spec ⟨p, hp, htakes⟩ with
        ⟨category, stop, hstop, htoken, htake⟩ | ⟨hrejects, htake⟩
      · rw [htake]
        exact ⟨.token category ⟨candidate.begin.start, stop⟩, rfl,
          .cons rfl (htakes.start_lt_stop.le.trans hstop) (.nil _), ⟨_, hmem, htoken⟩, rfl⟩
      · rw [htake]
        exact ⟨.rejected candidate.begin, rfl, .cons rfl htakes.start_lt_stop.le (.nil _),
          ⟨_, hmem, hrejects⟩, rfl⟩

/-- The pieces of the scan from a place on: they go on to the end of the text, no gap follows
another, and their spans are those of the scan. -/
theorem scanAfreshFrom_spec (h : Highlighter) [h.Leftmost] : ∀ (fuel : Nat) {c : Cursor},
    c.rest.length < fuel →
      ∃ pieces, h.scanAfreshFrom fuel c = pieces.flatMap (·.spans h) ∧ Follow c pieces c.atEnd ∧
        (∀ piece ∈ pieces, h.Accounts piece) ∧
        (pieces.IsChain fun piece next => ¬(piece.isGap ∧ next.isGap)) ∧
        (c.rest = [] → pieces = []) := by
  intro fuel
  induction fuel with
  | zero => intro c hc; exact absurd hc (Nat.not_lt_zero _)
  | succ fuel ih =>
      intro c hfuel
      rw [scanAfreshFrom]
      by_cases hrest : c.rest = []
      · refine ⟨[], by simp [hrest], ?_, fun _ hpiece => (List.not_mem_nil hpiece).elim, .nil,
          fun _ => rfl⟩
        rw [← Cursor.eq_of_le_of_rest_nil c.le_atEnd hrest]
        exact .nil c
      · obtain ⟨first, hspans, hfollow, haccounts, hapart, hlast⟩ := h.scanPart_spec c
        have hlength := Cursor.rest_length_lt (h.lt_scanPart_next hrest)
        obtain ⟨rest, hspans', hfollow', haccounts', hapart', hnil⟩ := ih (Nat.lt_of_lt_of_le
          hlength (Nat.le_of_lt_succ hfuel))
        rw [Cursor.atEnd_eq_of_le hfollow.le] at hfollow'
        refine ⟨first ++ rest, ?_, hfollow.append hfollow', fun piece hpiece => ?_,
          List.isChain_append.mpr ⟨hapart, hapart', ?_⟩, fun h => absurd h hrest⟩
        · rw [List.flatMap_append, ← hspans, ← hspans']
          simp [hrest]
        · exact (List.mem_append.mp hpiece).elim (haccounts piece) (haccounts' piece)
        · rintro last hmem next hnext ⟨hgap, -⟩
          rw [hnil (hlast last hmem hgap)] at hnext
          cases hnext

end Highlighter

/-! ## Every span has its reason

A span with a category is a token of a rule or a word of a gap, and no rule is overlooked: where a
rule has a match, there is a token or the opening of a rejected region
(`highlight_sound_and_complete`). -/

theorem CompiledRule.HasToken.start_lt_stop {rule : CompiledRule} {category : Category}
    {s : Stretch} (h : rule.HasToken category s) : s.start < s.stop := by
  cases h with
  | variant _ takes => exact takes.start_lt_stop
  | closed takes closes _ =>
      exact (takes.start_lt_stop.trans_le closes.le_start).trans closes.takes.start_lt_stop

namespace Highlighter

variable {h : Highlighter}

/-- The pieces of the scan of a text, whose spans are joined to those of the text. -/
theorem exists_pieces (h : Highlighter) [h.Leftmost] (text : String) :
    ∃ pieces, Follow (.atStart text.toList 0) pieces (Cursor.atStart text.toList 0).atEnd ∧
      (∀ piece ∈ pieces, h.Accounts piece) ∧
      h.highlight text = joinSpans (pieces.flatMap (·.spans h)) ∧
      pieces.IsChain fun piece next => ¬(piece.isGap ∧ next.isGap) := by
  obtain ⟨pieces, hspans, hfollow, haccounts, hapart, -⟩ :=
    h.scanAfreshFrom_spec (text.toList.length + 1)
      (Nat.lt_succ_self (Cursor.atStart text.toList 0).rest.length)
  refine ⟨pieces, hfollow, haccounts, ?_, hapart⟩
  rw [highlight_eq_highlightAfresh, highlightAfresh, hspans]

/-- A span with a category comes from a token, or from a word of a gap. -/
theorem exists_piece_of_mem_joinSpans [h.Leftmost] {a b : Cursor} {pieces : List Piece}
    (hfollow : Follow a pieces b) {span : Span} {category : Category}
    (hspan : span ∈ joinSpans (pieces.flatMap (·.spans h)))
    (hcategory : span.category = some category) :
    (∃ s, .token category s ∈ pieces ∧
      span = ⟨some category, s.start.offset, s.stop.offset⟩) ∨
    ∃ gap word, .gap gap ∈ pieces ∧ h.IsWord gap category word ∧
      span = ⟨some category, word.start.offset, word.stop.offset⟩ := by
  obtain ⟨hmem, -⟩ := (mem_joinSpans_iff hcategory).mp hspan
  obtain ⟨piece, hpiece, hmem⟩ := List.mem_flatMap.mp hmem
  cases piece with
  | gap s =>
      obtain ⟨-, hle, -⟩ := hfollow.bounds hpiece
      obtain ⟨word, hword, heq⟩ := (h.classifyGap_spec hle).2 span hmem category hcategory
      exact Or.inr ⟨s, word, hpiece, hword.isWord, heq⟩
  | token category' s =>
      obtain rfl := List.mem_singleton.mp hmem
      obtain rfl : category' = category := Option.some.inj hcategory
      exact Or.inl ⟨s, hpiece, rfl⟩
  | rejected s =>
      obtain rfl := List.mem_singleton.mp hmem
      cases hcategory

/-- Where a rule has a match, there is no gap. -/
theorem exists_piece_of_takes {a b : Cursor} {pieces : List Piece} (hfollow : Follow a pieces b)
    (haccounts : ∀ piece ∈ pieces, h.Accounts piece) {rule : CompiledRule} (hrule : rule ∈ h.rules)
    {p : Pattern} (hp : p ∈ rule.beginPatterns) {t : Stretch} (hat : a ≤ t.start)
    (htb : t.start < b) (ht : p.Takes t) :
    (∃ category s, .token category s ∈ pieces ∧ s.start ≤ t.start ∧ t.start < s.stop) ∨
    ∃ s, .rejected s ∈ pieces ∧ s.start ≤ t.start ∧ t.start < s.stop := by
  obtain ⟨piece, hpiece, hstart, hstop⟩ := hfollow.exists_mem hat htb
  cases piece with
  | gap s => exact absurd ht (haccounts _ hpiece rule hrule p hp t hstart hstop)
  | token category s => exact Or.inl ⟨category, s, hpiece, hstart, hstop⟩
  | rejected s => exact Or.inr ⟨s, hpiece, hstart, hstop⟩

/-- A highlighted text falls into pieces that lie one after another. A gap among them is all the
text between two others, or between one of them and an end of the text. Every span with a category
is a token among the pieces, which is what a rule describes, or a word of a gap; every token is such
a span; where a rule has a match that is not empty, there is a token or a rejected opening; and a
region is rejected only if it is not closed or holds something illegal. -/
theorem highlight_sound_and_complete (h : Highlighter) [h.Leftmost] (text : String) :
    ∃ pieces, Follow (.atStart text.toList 0) pieces (Cursor.atStart text.toList 0).atEnd ∧
      (pieces.IsChain fun piece next => ¬(piece.isGap ∧ next.isGap)) ∧
      (∀ span ∈ h.highlight text, ∀ category, span.category = some category →
        (∃ s, .token category s ∈ pieces ∧ (∃ rule ∈ h.rules, rule.HasToken category s) ∧
          span = ⟨some category, s.start.offset, s.stop.offset⟩) ∨
        ∃ gap word, .gap gap ∈ pieces ∧ gap.start.alone gap.stop ≤ word.start ∧
          h.wordPattern.Takes word ∧
          span = ⟨some category, word.start.offset, word.stop.offset⟩ ∧
          h.classifyWord (span.text text.toList) = some category) ∧
      (∀ category s, .token category s ∈ pieces →
        ⟨some category, s.start.offset, s.stop.offset⟩ ∈ h.highlight text) ∧
      (∀ rule ∈ h.rules, ∀ p ∈ rule.beginPatterns, ∀ t, .atStart text.toList 0 ≤ t.start →
        p.Takes t →
          (∃ category s, .token category s ∈ pieces ∧ s.start ≤ t.start ∧ t.start < s.stop) ∨
          ∃ s, .rejected s ∈ pieces ∧ s.start ≤ t.start ∧ t.start < s.stop) ∧
      ∀ s, .rejected s ∈ pieces → ∃ rule ∈ h.rules, rule.Rejects s := by
  obtain ⟨pieces, hfollow, haccounts, hspans, hapart⟩ := h.exists_pieces text
  rw [hspans]
  refine ⟨pieces, hfollow, hapart, fun span hspan category hcategory => ?_, fun category s hs => ?_,
    fun rule hrule p hp t hat ht => ?_, fun s hs => haccounts _ hs⟩
  · rcases exists_piece_of_mem_joinSpans hfollow hspan hcategory with
      ⟨s, hs, heq⟩ | ⟨gap, word, hgap, hword, heq⟩
    · exact Or.inl ⟨s, hs, haccounts _ hs, heq⟩
    · obtain ⟨hstart, hle, -⟩ := hfollow.bounds hgap
      refine Or.inr ⟨gap, word, hgap, hword.within, hword.takes, heq, ?_⟩
      rw [heq, Cursor.span_text_eq_of_alone hstart hle hword.within hword.takes.start_lt_stop.le]
      exact hword.classified
  · obtain ⟨rule, -, htoken⟩ := haccounts _ hs
    have hlt := (Cursor.lt_iff.mp htoken.start_lt_stop).2
    exact (mem_joinSpans_iff rfl).mpr
      ⟨List.mem_flatMap.mpr ⟨_, hs, List.mem_singleton.mpr rfl⟩, Nat.ne_of_lt hlt⟩
  · have hend := ht.start_lt_stop.trans_le (Cursor.le_atEnd_of_le (hat.trans ht.start_lt_stop.le))
    exact exists_piece_of_takes hfollow haccounts hrule hp hat hend ht

/-- Behind a quote that is not closed there is a number; the quote is no gap. -/
theorem highlight_sound_and_complete_behind_quote :
    ∃ pieces, Follow (.atStart "\"12".toList 0) pieces (Cursor.atStart "\"12".toList 0).atEnd ∧
      (pieces.IsChain fun piece next => ¬(piece.isGap ∧ next.isGap)) ∧
      ((∃ s, .token .number s ∈ pieces ∧
          (∃ rule ∈ quotesAndNumbers.rules, rule.HasToken .number s) ∧
          (⟨some .number, 1, 3⟩ : Span) = ⟨some .number, s.start.offset, s.stop.offset⟩) ∨
        ∃ gap word, .gap gap ∈ pieces ∧ gap.start.alone gap.stop ≤ word.start ∧
          quotesAndNumbers.wordPattern.Takes word ∧
          (⟨some .number, 1, 3⟩ : Span) =
            ⟨some .number, word.start.offset, word.stop.offset⟩ ∧
          quotesAndNumbers.classifyWord
            (Span.text ⟨some .number, 1, 3⟩ "\"12".toList) = some .number) ∧
      ((∃ category s, .token category s ∈ pieces ∧ s.start ≤ .atStart "\"12".toList 0 ∧
          .atStart "\"12".toList 0 < s.stop) ∨
        ∃ s, .rejected s ∈ pieces ∧ s.start ≤ .atStart "\"12".toList 0 ∧
          .atStart "\"12".toList 0 < s.stop) := by
  obtain ⟨pieces, hfollow, hapart, hsound, -, hcomplete, -⟩ :=
    highlight_sound_and_complete quotesAndNumbers "\"12"
  refine ⟨pieces, hfollow, hapart, hsound ⟨some .number, 1, 3⟩ (by decide) .number rfl, ?_⟩
  refine hcomplete _ List.mem_cons_self _ (List.mem_singleton.mpr rfl)
    ⟨.atStart "\"12".toList 0, ⟨['"'], ['1', '2'], 1⟩⟩ (le_refl _) ⟨rfl, ?_⟩
  exact Cursor.lt_iff.mpr ⟨Cursor.next_le rfl, by decide⟩

end Highlighter

end CodeTint
