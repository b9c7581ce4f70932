import CodeTint.Proofs.Highlight.Pieces
import CodeTint.Proofs.Highlight.Tokens

/-!
# The places of a scan

A scan goes from place to place, and at each of them takes a gap and the token behind it. Every
place of the text lies in the part behind one of the places that the scan visits
(`exists_visits`), and every token belongs to such a part (`exists_visits_of_mem_tokensFrom`). What
is found in a part is found at its place among the tokens of the text: the tokens of other parts lie
before it or behind it (`Visits.tokensFrom_eq`, `tokensFrom_eq_wordsFrom_append`).
-/

namespace CodeTint

namespace Highlighter

variable {h : Highlighter} {a c d : Cursor} {token : Span}

/-! ## From place to place -/

/-- Where the gap ends that begins at the place: where a rule begins, or at the end of the text. -/
def gapEnd (h : Highlighter) (c : Cursor) : Cursor :=
  match h.earliestRule c with
  | some candidate => candidate.begin.start
  | none => c.atEnd

/-- Where the scan goes on behind the part that begins at the place. -/
def nextPlace (h : Highlighter) (c : Cursor) : Cursor :=
  (h.scanPart c (h.earliestRule c)).next

/-- The places from which the scan that begins at `a` takes its steps. -/
inductive Visits (h : Highlighter) (a : Cursor) : Cursor → Prop
  | start : Visits h a a
  | step {c : Cursor} (visits : Visits h a c) (goes_on : c.rest ≠ []) : Visits h a (h.nextPlace c)

theorem nextPlace_of_earliestRule {candidate : Candidate}
    (hbest : h.earliestRule c = some candidate) :
    h.nextPlace c = (candidate.rule.take candidate.begin).next := by
  rw [nextPlace, hbest]
  rfl

theorem gapEnd_of_earliestRule {candidate : Candidate} (hbest : h.earliestRule c = some candidate) :
    h.gapEnd c = candidate.begin.start := by
  rw [gapEnd, hbest]

theorem le_gapEnd (h : Highlighter) (c : Cursor) : c ≤ h.gapEnd c := by
  cases hbest : h.earliestRule c with
  | none =>
      rw [gapEnd, hbest]
      exact c.le_atEnd
  | some candidate =>
      rw [gapEnd_of_earliestRule hbest]
      exact (isAhead_of_earliestRule hbest).le_start

theorem Visits.le (hvisits : h.Visits a c) : a ≤ c := by
  induction hvisits with
  | start => exact le_refl a
  | step _ _ ih => exact ih.trans (h.le_scanPart_next _)

/-- What the scan carries on from place to place as long as something has not come about, comes
about at a place that it visits. -/
theorem exists_visits_of_step (P Q : Cursor → Prop) (hstart : P a)
    (hstep : ∀ c, P c → Q c ∨ c.rest ≠ [] ∧ P (h.nextPlace c)) : ∃ c, h.Visits a c ∧ Q c := by
  suffices hgo : ∀ n (c : Cursor), c.rest.length = n → h.Visits a c → P c →
      ∃ c, h.Visits a c ∧ Q c from hgo _ a rfl .start hstart
  intro n
  induction n using Nat.strongRecOn with
  | ind n ih =>
      intro c hn hvisits hc
      rcases hstep c hc with hQ | ⟨hrest, hnext⟩
      · exact ⟨c, hvisits, hQ⟩
      · have hlength := Cursor.rest_length_lt (h.lt_scanPart_next hrest)
        exact ih _ (hn ▸ hlength) _ rfl (hvisits.step hrest) hnext

/-- Every place of the text lies in the part behind a place that the scan visits. -/
theorem exists_visits (had : a ≤ d) (hd : d.rest ≠ []) :
    ∃ c, h.Visits a c ∧ c ≤ d ∧ d < h.nextPlace c := by
  refine exists_visits_of_step (· ≤ d) (fun c => c ≤ d ∧ d < h.nextPlace c) had fun c hcd => ?_
  rcases Cursor.lt_or_le hcd (h.le_scanPart_next c) with hlt | hle
  · exact .inl ⟨hcd, hlt⟩
  · exact .inr ⟨fun hnil => hd (Cursor.eq_of_le_of_rest_nil hcd hnil ▸ hnil), hle⟩

theorem gapEnd_lt_nextPlace (hrest : (h.gapEnd c).rest ≠ []) : h.gapEnd c < h.nextPlace c := by
  cases hbest : h.earliestRule c with
  | none =>
      rw [gapEnd, hbest] at hrest
      exact absurd rfl hrest
  | some candidate =>
      rw [gapEnd_of_earliestRule hbest, nextPlace_of_earliestRule hbest]
      have hlt := (isAhead_of_earliestRule hbest).start_lt_stop
      exact hlt.trans_le (candidate.rule.covers_take hlt).2

/-- Behind a gap, and before the place where the scan goes on, lies what a rule takes. -/
theorem exists_candidate_of_gapEnd_le (hle : h.gapEnd c ≤ d) (hlt : d < h.nextPlace c) :
    ∃ candidate, h.earliestRule c = some candidate ∧ candidate.begin.start ≤ d ∧
      d < (candidate.rule.take candidate.begin).next := by
  cases hbest : h.earliestRule c with
  | none =>
      rw [gapEnd, hbest] at hle
      rw [nextPlace, hbest] at hlt
      exact absurd hlt (not_lt_of_ge hle)
  | some candidate =>
      rw [gapEnd_of_earliestRule hbest] at hle
      rw [nextPlace_of_earliestRule hbest] at hlt
      exact ⟨candidate, rfl, hle, hlt⟩

/-! ## Tokens by parts -/

theorem tokensFrom_eq_append (hc : c.rest ≠ []) :
    h.tokensFrom c = (h.scanPart c (h.earliestRule c)).spans.filter Span.isToken ++
      h.tokensFrom (h.nextPlace c) := by
  rw [tokensFrom, scan_of_rest_ne_nil hc, List.filter_append]
  rfl

/-- The tokens of the text are those before a visited place, and those that the scan finds from
there. -/
theorem Visits.tokensFrom_eq (hvisits : h.Visits a c) :
    ∃ before, h.tokensFrom a = before ++ h.tokensFrom c ∧
      ∀ token ∈ before, token.stop ≤ c.offset := by
  induction hvisits with
  | start => exact ⟨[], rfl, fun token htoken => absurd htoken List.not_mem_nil⟩
  | @step c hvisits hc ih =>
      obtain ⟨before, htokens, hbefore⟩ := ih
      rw [tokensFrom_eq_append hc, ← List.append_assoc] at htokens
      refine ⟨_, htokens, fun token htoken => ?_⟩
      rcases List.mem_append.mp htoken with htoken | htoken
      · exact (hbefore token htoken).trans (Cursor.offset_le (h.le_scanPart_next c))
      · obtain ⟨hmem, -⟩ := List.mem_filter.mp htoken
        obtain ⟨d, e, -, -, hle, hspan⟩ := (h.covers_scanPart c).exists_places hmem
        rw [hspan]
        exact Cursor.offset_le hle

theorem exists_visits_of_mem_tokensFrom (htoken : token ∈ h.tokensFrom a) :
    ∃ c, h.Visits a c ∧ token ∈ (h.scanPart c (h.earliestRule c)).spans := by
  refine exists_visits_of_step (fun c => token ∈ h.tokensFrom c) _ htoken fun c htoken => ?_
  by_cases hc : c.rest = []
  · rw [tokensFrom_of_rest_eq_nil hc] at htoken
    exact absurd htoken List.not_mem_nil
  · rw [tokensFrom_eq_append hc] at htoken
    exact (List.mem_append.mp htoken).imp List.mem_of_mem_filter fun htoken => ⟨hc, htoken⟩

/-! ## What lies at a place -/

variable [h.Leftmost]

theorem offset_le_start_of_mem_tokensFrom (htoken : token ∈ h.tokensFrom c) :
    c.offset ≤ token.start := by
  obtain ⟨hmem, -⟩ := List.mem_filter.mp htoken
  obtain ⟨d, e, hcd, -, -, hspan⟩ := (h.covers_scan c).exists_places hmem
  rw [hspan]
  exact Cursor.offset_le hcd

/-- Before a place that the scan visits lies a token or a rejected opening, unless it is the first
one or the end of the text. -/
theorem Visits.exists_stop_eq (hvisits : h.Visits a c) (hrest : c.rest ≠ []) :
    c = a ∨ ∃ rule ∈ h.rules, ∃ s, ((∃ category, rule.HasToken category s) ∨ rule.Rejects s) ∧
      s.stop = c := by
  cases hvisits with
  | start => exact .inl rfl
  | @step c _ _ =>
      right
      cases hbest : h.earliestRule c with
      | none =>
          rw [nextPlace, hbest] at hrest
          exact absurd rfl hrest
      | some candidate =>
          obtain ⟨hrule, hbegins⟩ := beginsFirst_of_earliestRule hbest
          have := Leftmost.of_mem _ hrule
          rw [nextPlace_of_earliestRule hbest]
          refine ⟨_, hrule, ?_⟩
          rcases CompiledRule.take_spec hbegins.exists_takes.2 with
            ⟨category, stop, -, htoken, htake⟩ | ⟨hrejects, htake⟩
          · exact ⟨_, .inl ⟨category, htoken⟩, by rw [htake]⟩
          · exact ⟨_, .inr hrejects, by rw [htake]⟩

theorem not_takes_of_lt_gapEnd {rule : CompiledRule} (hrule : rule ∈ h.rules) {p : Pattern}
    (hp : p ∈ rule.beginPatterns) {t : Stretch} (hct : c ≤ t.start) (hlt : t.start < h.gapEnd c) :
    ¬p.Takes t := by
  cases hbest : h.earliestRule c with
  | none => exact earliestRule_eq_none_iff.mp hbest rule hrule p hp t hct
  | some candidate =>
      rw [gapEnd_of_earliestRule hbest] at hlt
      exact accounts_gap_of_earliestRule hbest rule hrule p hp t hct hlt

/-- From a place on the words of the gap are found first, and everything else behind the gap. -/
theorem tokensFrom_eq_wordsFrom_append (h : Highlighter) [h.Leftmost] (c : Cursor) :
    ∃ behind, h.tokensFrom c = h.wordsFrom (c.alone (h.gapEnd c)) ++ behind ∧
      ∀ token ∈ behind, (h.gapEnd c).offset ≤ token.start := by
  cases hbest : h.earliestRule c with
  | none =>
      refine ⟨[], ?_, fun token htoken => absurd htoken List.not_mem_nil⟩
      rw [tokensFrom_of_earliestRule_eq_none hbest, gapEnd, hbest, Cursor.alone,
        Cursor.textTo_atEnd, List.append_nil]
  | some candidate =>
      rw [gapEnd_of_earliestRule hbest]
      refine ⟨_, tokensFrom_of_earliestRule hbest, fun token htoken => ?_⟩
      obtain ⟨hcovers, hle⟩ :=
        candidate.rule.covers_take (isAhead_of_earliestRule hbest).start_lt_stop
      rcases List.mem_append.mp htoken with htoken | htoken
      · obtain ⟨d, e, hle, -, -, hspan⟩ := hcovers.exists_places (List.mem_of_mem_filter htoken)
        rw [hspan]
        exact Cursor.offset_le hle
      · exact (Cursor.offset_le hcovers.le).trans (offset_le_start_of_mem_tokensFrom htoken)

/-! ## Tokens of a text -/

theorem mem_highlight_iff {text : String} {category : Category}
    (hcategory : token.category = some category) :
    token ∈ h.highlight text ↔ token ∈ h.tokensFrom (.atStart text.toList 0) := by
  rw [← filter_highlight, List.mem_filter, hcategory]
  simp

/-- A token of a text that is no word is what a rule takes that begins earliest from a visited
place. -/
theorem exists_candidate_of_mem_highlight {text : String} {category : Category}
    (htoken : token ∈ h.highlight text) (hcategory : token.category = some category)
    (hword : ∀ word, h.classifyWord word ≠ some category) :
    ∃ c candidate, h.Visits (.atStart text.toList 0) c ∧ h.earliestRule c = some candidate ∧
      token ∈ (candidate.rule.take candidate.begin).spans := by
  obtain ⟨c, hvisits, hmem⟩ :=
    exists_visits_of_mem_tokensFrom ((mem_highlight_iff hcategory).mp htoken)
  -- What has a category in a gap is a word.
  have hgap : ∀ stop, c ≤ stop → token ∉ h.classifyGap (c.alone stop) := by
    intro stop hle htoken
    obtain ⟨word, hclassified, -⟩ := (classifyGap_spec hle).2 token htoken category hcategory
    exact hword _ hclassified.2
  cases hbest : h.earliestRule c with
  | none =>
      rw [hbest] at hmem
      have hend := hgap c.atEnd c.le_atEnd
      rw [Cursor.alone, Cursor.textTo_atEnd] at hend
      exact absurd hmem hend
  | some candidate =>
      rw [hbest] at hmem
      refine ⟨c, candidate, hvisits, hbest, (List.mem_append.mp hmem).resolve_left (hgap _ ?_)⟩
      exact (isAhead_of_earliestRule hbest).le_start

/-- What a rule takes that begins earliest from a visited place is a token of the text. -/
theorem mem_highlight_of_visits {text : String} {category : Category}
    (hvisits : h.Visits (.atStart text.toList 0) c) {candidate : Candidate}
    (hbest : h.earliestRule c = some candidate) (hcategory : token.category = some category)
    (htoken : token ∈ (candidate.rule.take candidate.begin).spans)
    (hlt : token.start < token.stop) :
    token ∈ h.highlight text := by
  obtain ⟨before, htokens, -⟩ := hvisits.tokensFrom_eq
  have hisToken : token.isToken :=
    Span.isToken_iff.mpr ⟨hcategory ▸ rfl, Nat.ne_of_lt hlt⟩
  rw [mem_highlight_iff hcategory, htokens, tokensFrom_of_earliestRule hbest]
  refine List.mem_append_right _ (List.mem_append_right _ (List.mem_append_left _ ?_))
  exact List.mem_filter.mpr ⟨htoken, hisToken⟩

/-- Behind a gap, and before the place where the scan goes on, lies a token of the text or a
rejected opening. -/
theorem Visits.token_or_rejects {text : String} (hvisits : h.Visits (.atStart text.toList 0) c)
    (hle : h.gapEnd c ≤ d) (hlt : d < h.nextPlace c) :
    ∃ rule ∈ h.rules, ∃ s, s.start ≤ d ∧ d < s.stop ∧
      ((∃ category, rule.HasToken category s ∧
        ⟨some category, s.start.offset, s.stop.offset⟩ ∈ h.highlight text) ∨ rule.Rejects s) := by
  obtain ⟨candidate, hbest, hstart, hnext⟩ := exists_candidate_of_gapEnd_le hle hlt
  obtain ⟨hrule, hbegins⟩ := beginsFirst_of_earliestRule hbest
  have := Leftmost.of_mem _ hrule
  refine ⟨candidate.rule, hrule, ?_⟩
  rcases CompiledRule.take_spec hbegins.exists_takes.2 with
    ⟨category, stop, -, htoken, htake⟩ | ⟨hrejects, htake⟩
  · rw [htake] at hnext
    refine ⟨⟨candidate.begin.start, stop⟩, hstart, hnext, .inl ⟨category, htoken, ?_⟩⟩
    refine mem_highlight_of_visits hvisits hbest rfl ?_ (Cursor.lt_iff.mp (hstart.trans_lt hnext)).2
    rw [htake]
    exact List.mem_cons_self
  · rw [htake] at hnext
    exact ⟨candidate.begin, hstart, hnext, .inr hrejects⟩

end Highlighter

end CodeTint
