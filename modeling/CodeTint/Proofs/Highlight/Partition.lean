import CodeTint.Highlight.Scan
import CodeTint.Proofs.Highlight.Begin
import CodeTint.Proofs.Highlight.Spans

/-!
# Highlighting partitions the text

The spans of a highlighted text are a partition of its bytes: they lie one after another from the
first byte to the last, none is empty, each begins and ends between two characters, and plain text
that is not interrupted is one span (`partitions_highlight`). Nothing more is needed of the patterns
than that a match lies in the text and not before its search, as every pattern has it: what a scan
remembers of a rule was found by a search from some place that the scan has passed
(`Highlighter.Remembers`), and what it has not passed of it still lies ahead (`Candidate.IsAhead`).
-/

namespace CodeTint

/-! ## Tokens and words -/

/-- The spans of a rule's token go from where the rule begins to the end of the token. -/
theorem CompiledRule.covers_take (rule : CompiledRule) {begin : Stretch}
    (hlt : begin.start < begin.stop) :
    Covers begin.start (rule.take begin).spans (rule.take begin).next ∧
      begin.stop ≤ (rule.take begin).next := by
  cases rule with
  | pattern category variants => exact ⟨.single _ hlt.le, le_refl _⟩
  | region category opening closing illegal =>
      rw [take]
      split
      · exact ⟨.single none hlt.le, le_refl _⟩
      · rename_i close hclose
        obtain ⟨hle, hclose⟩ := Pattern.findNonEmpty_range hclose
        split
        · exact ⟨.single none hlt.le, le_refl _⟩
        · exact ⟨.single _ ((hlt.le.trans hle).trans hclose.le), hle.trans hclose.le⟩

namespace Highlighter

variable {h : Highlighter} {c d stop : Cursor} {watches : List Watch}

/-- A search in the gap, which is a text of its own, finds the stretch, and the text of the stretch
is a word of the category. -/
structure FindsWord (h : Highlighter) (gap : Stretch) (category : Category) (word : Stretch) : Prop
    where
  found : ∃ c, gap.start.alone gap.stop ≤ c ∧ h.wordPattern.findNonEmpty c = some word
  classified : h.classifyWord (String.ofList word.text) = some category

/-- What is found in a gap from one of its places on covers the rest of the gap, and what has a
category is a word. -/
theorem classifyFrom_spec (hle : c ≤ stop) : ∀ (fuel : Nat) {d e : Cursor}, c ≤ d → d ≤ stop →
    c.alone stop ≤ e → e.offset = d.offset → e.rest.length < fuel →
    Covers d (h.classifyFrom fuel e) stop ∧
      ∀ span ∈ h.classifyFrom fuel e, ∀ category, span.category = some category →
        ∃ word, h.FindsWord ⟨c, stop⟩ category word ∧
          span = ⟨some category, word.start.offset, word.stop.offset⟩ := by
  intro fuel
  induction fuel with
  | zero => intro d e _ _ _ _ hfuel; exact absurd hfuel (Nat.not_lt_zero _)
  | succ fuel ih =>
      intro d e hcd hds he hoff hfuel
      -- `e` is in the gap, as a text of its own, the place that `d` is in the whole text.
      have hrest : e.rest = d.textTo stop := by
        obtain ⟨d', hcd', -, hoff', hrest'⟩ := Cursor.exists_of_le_alone hle he
        rw [Cursor.eq_of_offset_eq hcd hcd' (hoff.symm.trans hoff')]
        exact hrest'
      rw [classifyFrom]
      cases hword : h.wordPattern.findNonEmpty e with
      | none =>
          have hend : d.offset + byteSize e.rest = stop.offset := by
            rw [hrest, ← Cursor.offset_eq_add_byteSize_textTo hds]
          simp only [hoff, hend]
          refine ⟨.single none hds, fun span hspan category hcategory => ?_⟩
          rw [List.mem_singleton.mp hspan] at hcategory
          cases hcategory
      | some word =>
          obtain ⟨hew, hlt⟩ := Pattern.findNonEmpty_range hword
          have hstart := he.trans hew
          have hstop := hstart.trans hlt.le
          obtain ⟨d₁, hcd₁, hds₁, hoff₁, -⟩ := Cursor.exists_of_le_alone hle hstart
          obtain ⟨d₂, hcd₂, hds₂, hoff₂, -⟩ := Cursor.exists_of_le_alone hle hstop
          have hd₁ : d ≤ d₁ := Cursor.le_of_offset_le hcd hcd₁
            (by have := Cursor.offset_le hew; omega)
          have hd₂ : d₁ ≤ d₂ := Cursor.le_of_offset_le hcd₁ hcd₂
            (by have := Cursor.offset_le hlt.le; omega)
          have hlength : word.stop.rest.length < fuel := by
            have := Cursor.rest_length_le hew
            have := Cursor.rest_length_lt hlt
            omega
          obtain ⟨hcovers, hwords⟩ := ih hcd₂ hds₂ hstop hoff₂ hlength
          simp only [hoff, hoff₁, hoff₂]
          refine ⟨.cons none hd₁ (.cons _ hd₂ hcovers), fun span hspan category hcategory => ?_⟩
          rcases List.mem_cons.mp hspan with rfl | hspan
          · cases hcategory
          · rcases List.mem_cons.mp hspan with rfl | hspan
            · refine ⟨word, ⟨⟨e, he, hword⟩, hcategory⟩, ?_⟩
              have hclass : h.classifyWord (String.ofList word.text) = some category := hcategory
              rw [hclass, hoff₁, hoff₂]
            · exact hwords span hspan category hcategory

theorem classifyGap_spec (hle : c ≤ stop) :
    Covers c (h.classifyGap (c.alone stop)) stop ∧
      ∀ span ∈ h.classifyGap (c.alone stop), ∀ category, span.category = some category →
        ∃ word, h.FindsWord ⟨c, stop⟩ category word ∧
          span = ⟨some category, word.start.offset, word.stop.offset⟩ :=
  classifyFrom_spec hle _ (le_refl c) hle (le_refl _) rfl (Nat.lt_succ_self _)

end Highlighter

/-! ## Steps -/

/-- The rule begins at the place or behind it, with a match that is not empty. -/
structure Candidate.IsAhead (candidate : Candidate) (c : Cursor) : Prop where
  le_start : c ≤ candidate.begin.start
  start_lt_stop : candidate.begin.start < candidate.begin.stop

theorem Candidate.IsAhead.rest_ne_nil {candidate : Candidate} {c : Cursor}
    (h : candidate.IsAhead c) : c.rest ≠ [] :=
  Cursor.rest_ne_nil_of_lt (h.le_start.trans_lt h.start_lt_stop)

namespace Highlighter

variable {h : Highlighter} {c d : Cursor} {watches : List Watch} {best : Option Candidate}

theorem covers_scanPart_of_isAhead (h : Highlighter)
    (hbest : ∀ candidate ∈ best, candidate.IsAhead c) :
    Covers c (h.scanPart c best).spans (h.scanPart c best).next := by
  cases best with
  | none =>
      have hcovers := (h.classifyGap_spec c.le_atEnd).1
      rwa [Cursor.alone, Cursor.textTo_atEnd] at hcovers
  | some candidate =>
      obtain ⟨hle, hlt⟩ := hbest candidate rfl
      exact (h.classifyGap_spec hle).1.append (candidate.rule.covers_take hlt).1

/-- Each step moves ahead. -/
theorem lt_next_of_isAhead (h : Highlighter) (hbest : ∀ candidate ∈ best, candidate.IsAhead c)
    (hc : c.rest ≠ []) : c < (h.scanPart c best).next := by
  cases best with
  | none =>
      have hlt : c.offset < c.atEnd.offset := Nat.lt_add_of_pos_right (byteSize_pos hc)
      exact Cursor.lt_iff.mpr ⟨c.le_atEnd, hlt⟩
  | some candidate =>
      obtain ⟨hle, hlt⟩ := hbest candidate rfl
      exact (hle.trans_lt hlt).trans_le (candidate.rule.covers_take hlt).2

theorem isAhead_of_earliestRule {candidate : Candidate}
    (hbest : h.earliestRule c = some candidate) : candidate.IsAhead c := by
  obtain ⟨i, hi⟩ := earliestBy_eq_some_iff.mp hbest
  have hget := hi.getElem?
  simp only [List.getElem?_mapIdx, Option.map_eq_some_iff, CompiledRule.candidate] at hget
  obtain ⟨rule, -, begin, hbegin, rfl⟩ := hget
  obtain ⟨hle, hlt⟩ := CompiledRule.nextBegin_range hbegin
  exact ⟨hle, hlt⟩

theorem covers_scanPart (h : Highlighter) (c : Cursor) :
    Covers c (h.scanPart c (h.earliestRule c)).spans (h.scanPart c (h.earliestRule c)).next :=
  h.covers_scanPart_of_isAhead fun _ => isAhead_of_earliestRule

theorem lt_scanPart_next (h : Highlighter) (hc : c.rest ≠ []) :
    c < (h.scanPart c (h.earliestRule c)).next :=
  h.lt_next_of_isAhead (fun _ => isAhead_of_earliestRule) hc

theorem le_scanPart_next (h : Highlighter) (c : Cursor) :
    c ≤ (h.scanPart c (h.earliestRule c)).next :=
  (h.covers_scanPart c).le

end Highlighter

/-! ## What is remembered -/

namespace Lookahead

variable {lookahead : Lookahead} {rule : CompiledRule} {c d : Cursor} {begin : Stretch}

/-- What is remembered was shown by a search from the place or from one before it. -/
def IsKnown (rule : CompiledRule) (c : Cursor) : Lookahead → Prop
  | unknown => True
  | found begin => ∃ a, a ≤ c ∧ rule.nextBegin a = some begin
  | exhausted => ∃ a, a ≤ c ∧ rule.nextBegin a = none

theorem IsKnown.of_le (h : lookahead.IsKnown rule c) (hcd : c ≤ d) : lookahead.IsKnown rule d := by
  cases lookahead with
  | unknown => trivial
  | found begin => exact h.imp fun _ ha => ⟨ha.1.trans hcd, ha.2⟩
  | exhausted => exact h.imp fun _ ha => ⟨ha.1.trans hcd, ha.2⟩

theorem isKnown_ofSearch (rule : CompiledRule) (c : Cursor) :
    (ofSearch (rule.nextBegin c)).IsKnown rule c := by
  cases hnext : rule.nextBegin c with
  | none => exact ⟨c, le_refl c, hnext⟩
  | some begin => exact ⟨c, le_refl c, hnext⟩

@[simp] theorem begin?_ofSearch (found : Option Stretch) : (ofSearch found).begin? = found := by
  cases found <;> rfl

theorem IsKnown.refresh (h : lookahead.IsKnown rule c) :
    (lookahead.refresh rule c).IsKnown rule c := by
  cases lookahead with
  | unknown => exact isKnown_ofSearch rule c
  | exhausted => exact h
  | found begin =>
      rw [Lookahead.refresh]
      split
      · exact isKnown_ofSearch rule c
      · exact h

/-- What is remembered after refreshing lies ahead: it is searched again if it does not. -/
theorem IsKnown.refresh_range (h : lookahead.IsKnown rule c)
    (hbegin : (lookahead.refresh rule c).begin? = some begin) :
    c ≤ begin.start ∧ begin.start < begin.stop := by
  have hsearch : (ofSearch (rule.nextBegin c)).begin? = some begin →
      c ≤ begin.start ∧ begin.start < begin.stop := fun hbegin => by
    rw [begin?_ofSearch] at hbegin
    exact CompiledRule.nextBegin_range hbegin
  cases lookahead with
  | unknown => exact hsearch hbegin
  | exhausted => cases hbegin
  | found begin' =>
      rw [Lookahead.refresh] at hbegin
      split at hbegin
      · exact hsearch hbegin
      · rename_i hfresh
        obtain rfl := Option.some.inj hbegin
        obtain ⟨a, hac, hfound⟩ := h
        obtain ⟨hle, hlt⟩ := CompiledRule.nextBegin_range hfound
        exact ⟨Cursor.le_of_offset_le hac hle (Nat.not_lt.mp hfresh), hlt⟩

end Lookahead

namespace Highlighter

variable {h : Highlighter} {c d : Cursor} {watches : List Watch}

/-- What is remembered at a place belongs to the rules, and is known. -/
structure Remembers (h : Highlighter) (watches : List Watch) (c : Cursor) : Prop where
  rules : watches.map (·.rule) = h.rules
  known : ∀ watch ∈ watches, watch.lookahead.IsKnown watch.rule c

namespace Remembers

theorem unknown (h : Highlighter) (c : Cursor) : h.Remembers (h.rules.map (⟨·, .unknown⟩)) c := by
  refine ⟨by simp [Function.comp_def], fun watch hwatch => ?_⟩
  obtain ⟨rule, -, rfl⟩ := List.mem_map.mp hwatch
  trivial

/-- What is remembered stays known further on. -/
theorem refresh (hrem : h.Remembers watches c) (hcd : c ≤ d) :
    h.Remembers (refreshAll c watches) d := by
  refine ⟨by simp [refreshAll, Function.comp_def, hrem.rules], fun watch hwatch => ?_⟩
  obtain ⟨earlier, hearlier, rfl⟩ := List.mem_map.mp hwatch
  exact (hrem.known earlier hearlier).refresh.of_le hcd

/-- The rule that the scan chooses is one of the rules, and lies ahead. -/
theorem candidate_spec (hrem : h.Remembers watches c) {candidate : Candidate}
    (hbest : bestCandidate (refreshAll c watches) = some candidate) :
    candidate.rule ∈ h.rules ∧ candidate.IsAhead c := by
  obtain ⟨i, hi⟩ := earliestBy_eq_some_iff.mp hbest
  have hget := hi.getElem?
  simp only [refreshAll, List.getElem?_mapIdx, List.getElem?_map, Option.map_map,
    Option.map_eq_some_iff, Function.comp_apply, Watch.candidate] at hget
  obtain ⟨watch, hwatch, begin, hbegin, rfl⟩ := hget
  have hmem := List.mem_of_getElem? hwatch
  obtain ⟨hle, hlt⟩ := (hrem.known watch hmem).refresh_range hbegin
  exact ⟨hrem.rules ▸ List.mem_map_of_mem hmem, hle, hlt⟩

theorem isAhead (hrem : h.Remembers watches c) :
    ∀ candidate ∈ bestCandidate (refreshAll c watches), candidate.IsAhead c :=
  fun _ hbest => (hrem.candidate_spec hbest).2

theorem covers (hrem : h.Remembers watches c) :
    Covers c (h.scanPart c (bestCandidate (refreshAll c watches))).spans
      (h.scanPart c (bestCandidate (refreshAll c watches))).next :=
  h.covers_scanPart_of_isAhead hrem.isAhead

theorem lt_next (hrem : h.Remembers watches c) (hc : c.rest ≠ []) :
    c < (h.scanPart c (bestCandidate (refreshAll c watches))).next :=
  h.lt_next_of_isAhead hrem.isAhead hc

end Remembers

/-! ## The scan -/

/-- The states of the scan of a text: what is remembered of the rules, and the place. -/
inductive Reaches (h : Highlighter) (text : String) : List Watch → Cursor → Prop
  | start : Reaches h text (h.rules.map (⟨·, .unknown⟩)) (.atStart text.toList 0)
  | step {watches : List Watch} {c : Cursor} (reaches : Reaches h text watches c)
      (goes_on : c.rest ≠ []) :
      Reaches h text (refreshAll c watches)
        (h.scanPart c (bestCandidate (refreshAll c watches))).next

theorem Reaches.remembers {text : String} (hreach : h.Reaches text watches c) :
    h.Remembers watches c := by
  induction hreach with
  | start => exact .unknown h _
  | step _ hc ih => exact ih.refresh (ih.lt_next hc).le

/-- The spans of a scan go on to the end of the text. -/
theorem covers_scanFrom (h : Highlighter) : ∀ (fuel : Nat) {watches : List Watch} {c : Cursor},
    h.Remembers watches c → c.rest.length < fuel →
      Covers c (h.scanFrom fuel watches c) c.atEnd := by
  intro fuel
  induction fuel with
  | zero => exact fun _ hc => absurd hc (Nat.not_lt_zero _)
  | succ fuel ih =>
      intro watches c hrem hfuel
      rw [scanFrom]
      by_cases hc : c.rest = []
      · rw [← Cursor.eq_of_le_of_rest_nil c.le_atEnd hc, hc]
        exact .nil c
      · have hlt := hrem.lt_next hc
        have hlength := Cursor.rest_length_lt hlt
        have hcovers := ih (hrem.refresh hlt.le) (by omega)
        rw [Cursor.atEnd_eq_of_le hlt.le] at hcovers
        simpa [hc] using hrem.covers.append hcovers

theorem tiled_highlight (h : Highlighter) (text : String) :
    Tiled (.atStart text.toList 0) (h.highlight text).reverse
      (Cursor.atStart text.toList 0).atEnd :=
  (h.covers_scanFrom _ (.unknown h _) (Nat.lt_succ_self _)).tiled

theorem covers_highlight (h : Highlighter) (text : String) :
    Covers (.atStart text.toList 0) (h.highlight text) (Cursor.atStart text.toList 0).atEnd := by
  have hcovers := (h.tiled_highlight text).covers
  rwa [List.reverse_reverse] at hcovers

/-- The texts of the spans, one behind the other, are the text. -/
theorem flatMap_text_highlight (h : Highlighter) (text : String) :
    (h.highlight text).flatMap (fun span => (span.text text.toList).toList) = text.toList :=
  ((h.covers_highlight text).flatMap_text (le_refl _)).trans (Cursor.textTo_atEnd _)

theorem start_lt_stop_of_mem_highlight {h : Highlighter} {text : String} {span : Span}
    (hspan : span ∈ h.highlight text) : span.start < span.stop :=
  (h.tiled_highlight text).start_lt_stop span (List.mem_reverse.mpr hspan)

theorem text_ne_nil_of_mem_highlight {h : Highlighter} {text : String} {span : Span}
    (hspan : span ∈ h.highlight text) : (span.text text.toList).toList ≠ [] := by
  obtain ⟨c, d, hc, hcd, -, heq⟩ := (h.covers_highlight text).exists_places hspan
  have hlt := start_lt_stop_of_mem_highlight hspan
  rw [heq] at hlt
  rw [heq, Cursor.span_text_eq hc, String.toList_ofList]
  intro hnil
  rw [(Cursor.textTo_eq_nil_iff hcd).mp hnil] at hlt
  exact lt_irrefl _ hlt

theorem isChain_highlight (h : Highlighter) (text : String) :
    (h.highlight text).IsChain fun span next => span.category.isSome ∨ next.category.isSome :=
  (List.isChain_reverse.mp (h.tiled_highlight text).apart).imp fun _ _ => Or.symm

end Highlighter

/-! ## Partitions -/

/-- The spans are a partition of the text in which plain stretches are as long as they can be. -/
structure Partitions (spans : List Span) (text : String) : Prop where
  /-- The empty text, and no other, has no spans. -/
  eq_nil_iff : spans = [] ↔ text = ""
  start_eq : ∀ first ∈ spans.head?, first.start = 0
  meet : spans.IsChain fun span next => next.start = span.stop
  stop_eq : ∀ last ∈ spans.getLast?, last.stop = text.utf8ByteSize
  start_lt_stop : ∀ span ∈ spans, span.start < span.stop
  /-- Every border of a span lies between two characters of the text. -/
  isValid : ∀ span ∈ spans, (⟨span.start⟩ : String.Pos.Raw).IsValid text ∧
    (⟨span.stop⟩ : String.Pos.Raw).IsValid text
  /-- No two neighbours are both plain. -/
  apart : spans.IsChain fun span next => ¬(span.category = none ∧ next.category = none)
  join_text : String.join (spans.map (·.text text.toList)) = text

/-- Spans that cover the text, and are joined, are a partition of it. -/
theorem partitions_of_tiled {text : String} {spans : List Span}
    (h : Tiled (.atStart text.toList 0) spans.reverse (Cursor.atStart text.toList 0).atEnd) :
    Partitions spans text := by
  have hcovers := h.covers
  rw [List.reverse_reverse] at hcovers
  have hsize := Cursor.offset_atEnd_atStart text
  have hflat : spans.flatMap (fun span => (span.text text.toList).toList) = text.toList :=
    (hcovers.flatMap_text (le_refl _)).trans (Cursor.textTo_atEnd _)
  have hjoin : String.join (spans.map (·.text text.toList)) = text := by
    rw [← String.toList_inj, String.toList_join, List.flatMap_map, hflat]
  have hlt : ∀ span ∈ spans, span.start < span.stop :=
    fun span hspan => h.start_lt_stop span (List.mem_reverse.mpr hspan)
  refine ⟨⟨fun hnil => ?_, fun hempty => ?_⟩, fun first hfirst => hcovers.head_start hfirst,
    hcovers.isChain, fun last hlast => (hcovers.last_stop hlast).trans hsize, hlt,
    fun span hspan => ?_, ?_, hjoin⟩
  · rw [← hjoin, hnil]
    rfl
  · refine List.eq_nil_iff_forall_not_mem.mpr fun span hspan => ?_
    obtain ⟨c, d, -, -, hd, heq⟩ := hcovers.exists_places hspan
    have hne := hlt span hspan
    have hstop := Cursor.offset_le hd
    rw [hsize, hempty] at hstop
    rw [heq] at hne
    exact absurd (Nat.lt_of_lt_of_le hne hstop) (Nat.not_lt_zero _)
  · obtain ⟨c, d, hc, hcd, -, hspan⟩ := hcovers.exists_places hspan
    rw [hspan]
    exact ⟨Cursor.isValid_offset hc, Cursor.isValid_offset (hc.trans hcd)⟩
  · refine (List.isChain_reverse.mp h.apart).imp fun span next hsome hnone => ?_
    simp [hnone.1, hnone.2] at hsome

/-- Whatever the patterns match, the spans of a highlighted text are a partition of it. -/
theorem Highlighter.partitions_highlight (h : Highlighter) (text : String) :
    Partitions (h.highlight text) text :=
  partitions_of_tiled (h.tiled_highlight text)

end CodeTint
