import CodeTint.Highlight.Scan
import CodeTint.Proofs.Highlight.Partition

/-!
# Remembering where rules begin

What a scan remembers of a rule is what a search has shown from some place that the scan has passed.
A beginning that the scan has not passed, and the knowledge that there is none, are then still true;
a beginning that it has passed is searched again. After this refreshing (`refresh_eq`) the scan
knows of every rule what a search from the present place would show, so that it goes the same way as
a scan that remembers nothing (`highlight_eq_highlightAfresh`).
-/

namespace CodeTint

namespace Lookahead

variable {lookahead : Lookahead} {rule : CompiledRule} {c d : Cursor}

/-- Refreshing gives what a search from the present place shows. -/
theorem refresh_eq [rule.Leftmost] (h : lookahead.IsKnown rule c) :
    lookahead.refresh rule c = ofSearch (rule.nextBegin c) := by
  cases lookahead with
  | unknown => rfl
  | exhausted =>
      obtain ⟨a, hac, hnone⟩ := h
      rw [CompiledRule.nextBegin_eq_none_of_le hnone hac]
      rfl
  | found begin =>
      obtain ⟨a, hac, hsome⟩ := h
      rw [refresh]
      split
      · rfl
      · rename_i hfresh
        -- The beginning is not passed yet, so that the search from `a` led past the present place.
        have hle := (CompiledRule.nextBegin_range hsome).1
        have hcb := Cursor.le_of_offset_le hac hle (Nat.not_lt.mp hfresh)
        rw [CompiledRule.nextBegin_eq_of_le hsome hac hcb]
        rfl

end Lookahead

namespace Highlighter

variable {h : Highlighter} [h.Leftmost] {watches : List Watch} {c d : Cursor}

/-! ## All rules -/

/-- After refreshing, everything is remembered that searches from the place show. -/
theorem Remembers.refreshAll_eq (hrem : h.Remembers watches c) :
    refreshAll c watches = h.rules.map fun rule => ⟨rule, .ofSearch (rule.nextBegin c)⟩ := by
  rw [← hrem.rules, List.map_map]
  refine List.map_congr_left fun watch hwatch => ?_
  have := Leftmost.of_mem watch.rule (hrem.rules ▸ List.mem_map_of_mem hwatch)
  simp only [Function.comp_apply, Lookahead.refresh_eq (hrem.known watch hwatch)]

theorem Remembers.bestCandidate_eq (hrem : h.Remembers watches c) :
    bestCandidate (refreshAll c watches) = h.earliestRule c := by
  rw [bestCandidate, earliestRule, hrem.refreshAll_eq]
  refine congrArg earliestCandidate (List.mapIdx_eq_iff.mpr fun i => ?_)
  simp only [List.getElem?_mapIdx, List.getElem?_map, Option.map_map]
  refine congrArg (Option.map · h.rules[i]?) (funext fun rule => ?_)
  simp [Watch.candidate, CompiledRule.candidate]

/-! ## The scan -/

theorem scanFrom_eq_scanAfreshFrom (h : Highlighter) [h.Leftmost] : ∀ (fuel : Nat)
    {watches : List Watch} {c : Cursor}, h.Remembers watches c →
      h.scanFrom fuel watches c = h.scanAfreshFrom fuel c := by
  intro fuel
  induction fuel with
  | zero => exact fun _ => rfl
  | succ fuel ih =>
      intro watches c hrem
      rw [scanFrom, scanAfreshFrom]
      split
      · rfl
      · have hnext := ih (hrem.refresh (h.le_scanPart_next c))
        simp only [hrem.bestCandidate_eq, hnext]

theorem highlight_eq_highlightAfresh (h : Highlighter) [h.Leftmost] (text : String) :
    h.highlight text = h.highlightAfresh text := by
  simp only [highlight, highlightAfresh,
    h.scanFrom_eq_scanAfreshFrom _ (.unknown h (.atStart text.toList 0))]

/-- A scan that remembers gives the same spans as one that searches every rule afresh at every
step. In every state that it reaches, its choice is the rule with the earliest match that is not
empty, of rules that begin together the one listed first; within a rule it is the earliest match of
a pattern, of patterns that match together the one listed first. -/
theorem remembering_changes_nothing (h : Highlighter) [h.Leftmost] (text : String) :
    h.highlight text = h.highlightAfresh text ∧
      ∀ watches c, h.Reaches text watches c →
        bestCandidate (refreshAll c watches) = h.earliestRule c ∧
        (∀ candidate, bestCandidate (refreshAll c watches) = some candidate ↔
          h.rules[candidate.index]? = some candidate.rule ∧
            IsFirstAmong h.rules
              (fun rule s => ∃ i, IsFirstAmong rule.beginPatterns (·.TakesFirst c) i s)
              candidate.index candidate.begin) ∧
        (bestCandidate (refreshAll c watches) = none ↔
          ∀ rule ∈ h.rules, ∀ p ∈ rule.beginPatterns, ∀ t : Stretch,
            c ≤ t.start → ¬p.Takes t) := by
  refine ⟨h.highlight_eq_highlightAfresh text, fun watches c hreach => ?_⟩
  rw [hreach.remembers.bestCandidate_eq]
  exact ⟨rfl, fun candidate => earliestRule_eq_some_iff, earliestRule_eq_none_iff⟩

/-- Texts in double quotes that end on their line, numbers, and words of small letters. -/
def quotesAndNumbers : Highlighter where
  name := "quotes and numbers"
  rules := [
    .region .string (Node.one (.single '"')).pattern (Node.one (.single '"')).pattern
      (some (Node.one (.single '\n')).pattern),
    .pattern .number [(Node.repetition (.one (.range '0' '9')) 1 none true).pattern]]
  wordPattern := (Node.repetition (.one (.range 'a' 'z')) 1 none true).pattern
  words := wordTable [⟨.keyword, ["if"]⟩]

instance : quotesAndNumbers.Leftmost where
  of_mem := by
    rintro rule hrule
    rcases List.mem_pair.mp hrule with rfl | rfl
    · exact CompiledRule.leftmost_region_iff.mpr
        ⟨inferInstance, inferInstance, by rintro p ⟨⟩; infer_instance⟩
    · exact CompiledRule.leftmost_pattern (by rintro p ⟨⟩ <;> [infer_instance; contradiction])
  wordPattern := inferInstanceAs (Node.pattern _).Leftmost

/-- Behind a quote that is not closed, the number that was found from the quote is still known. -/
theorem remembering_changes_nothing_behind_quote :
    quotesAndNumbers.Reaches "\"12"
        (refreshAll (.atStart "\"12".toList 0) (quotesAndNumbers.rules.map (⟨·, .unknown⟩)))
        ⟨['"'], ['1', '2'], 1⟩ ∧
      (bestCandidate (refreshAll ⟨['"'], ['1', '2'], 1⟩
        (refreshAll (.atStart "\"12".toList 0)
          (quotesAndNumbers.rules.map (⟨·, .unknown⟩))))).map (·.begin) =
        some ⟨⟨['"'], ['1', '2'], 1⟩, ⟨['2', '1', '"'], [], 3⟩⟩ := by
  have hreach : quotesAndNumbers.Reaches "\"12"
      (refreshAll (.atStart "\"12".toList 0) (quotesAndNumbers.rules.map (⟨·, .unknown⟩)))
      ⟨['"'], ['1', '2'], 1⟩ := .step .start (by decide)
  refine ⟨hreach, ?_⟩
  rw [((remembering_changes_nothing quotesAndNumbers "\"12").2 _ _ hreach).1]
  rfl

end Highlighter

end CodeTint
