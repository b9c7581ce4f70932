import CodeTint.Proofs.Highlight.Pieces
import CodeTint.Proofs.Highlight.Tokens
import CodeTint.Proofs.Pattern.Lines

/-!
# Highlighting line by line

If no rule reaches over the end of a line (`Highlighter.KeepsToLines`), then a scan finds on every
line what it finds there if the line is the whole text. Two scans run side by side, one of a text
and one of a line of it: where the one of the line finds a beginning, the other one finds it too
(`KeepsToLines.earliestRule_eq`), and where it finds none, the other one has reached the next line.
So the tokens of a text are those of its lines (`ByLines.atStart_append`, `byLines_tokensFrom`).
-/

namespace CodeTint

open Cursor (SameLine)

variable {sep : Char} {shift : Nat} {next c d e c' : Cursor}

/-! ## Beginnings on a line -/

theorem AgreeOnLine.exists {P Q : Nat → Stretch → Prop}
    (h : ∀ i, AgreeOnLine sep shift next (P i) (Q i)) :
    AgreeOnLine sep shift next (fun s => ∃ i, P i s) (fun s => ∃ i, Q i s) := by
  refine ⟨fun t ⟨i, ht⟩ => ?_, fun s ⟨i, hs⟩ hlt => ?_⟩
  · obtain ⟨s, hs, hst, hlt⟩ := (h i).exists_left t ht
    exact ⟨s, ⟨i, hs⟩, hst, hlt⟩
  · obtain ⟨t, ht, hst⟩ := (h i).exists_right s hs hlt
    exact ⟨t, ⟨i, ht⟩, hst⟩

theorem AgreeOnLine.isFirstAmong {β : Type} {members : List β} {P Q : β → Stretch → Prop}
    (h : ∀ x ∈ members, AgreeOnLine sep shift next (P x) (Q x)) (i : Nat) :
    AgreeOnLine sep shift next (IsFirstAmong members P i) (IsFirstAmong members Q i) := by
  refine ⟨fun t ht => ?_, fun s hs hlt => ?_⟩
  · obtain ⟨x, hx, hxt⟩ := ht.has_self
    obtain ⟨s, hxs, hst, hlt⟩ := (h x (List.mem_of_getElem? hx)).exists_left t hxt
    refine ⟨s, ⟨⟨x, hx, hxs⟩, fun j y u hy hyu => ?_⟩, hst, hlt⟩
    have hoff := hst.start.offset
    by_cases hu : u.start.offset < next.offset
    · obtain ⟨v, hyv, huv⟩ := (h y (List.mem_of_getElem? hy)).exists_right u hyu hu
      obtain ⟨hle, hbefore⟩ := ht.first j y v hy hyv
      have hoff' := huv.start.offset
      exact ⟨by omega, fun hji => by have := hbefore hji; omega⟩
    · exact ⟨by omega, fun _ => by omega⟩
  · obtain ⟨x, hx, hxs⟩ := hs.has_self
    obtain ⟨t, hxt, hst⟩ := (h x (List.mem_of_getElem? hx)).exists_right s hxs hlt
    refine ⟨t, ⟨⟨x, hx, hxt⟩, fun j y v hy hyv => ?_⟩, hst⟩
    obtain ⟨u, hyu, huv, -⟩ := (h y (List.mem_of_getElem? hy)).exists_left v hyv
    obtain ⟨hle, hbefore⟩ := hs.first j y u hy hyu
    have hoff := hst.start.offset
    have hoff' := huv.start.offset
    exact ⟨by omega, fun hji => by have := hbefore hji; omega⟩

namespace CompiledRule

/-- The rule does not reach over the end of a line: its patterns have no use for it, and a region
that holds one is rejected. -/
inductive KeepsToLine : CompiledRule → Prop
  | pattern {category : Category} {variants : List Pattern}
      (avoids : ∀ p ∈ variants, p.Avoids '\n') : KeepsToLine (pattern category variants)
  | region {category : Category} {opening closing : Pattern}
      (opening_avoids : opening.Avoids '\n') (closing_avoids : closing.Avoids '\n') :
      KeepsToLine
        (region category opening closing (some (Node.one (.single '\n')).pattern))

theorem KeepsToLine.avoids {rule : CompiledRule} (h : rule.KeepsToLine) :
    ∀ p ∈ rule.beginPatterns, p.Avoids '\n' := by
  cases h with
  | pattern avoids => exact avoids
  | region opening_avoids _ => exact List.forall_mem_singleton.mpr opening_avoids

theorem KeepsToLine.beginsFirst {rule : CompiledRule} (h : rule.KeepsToLine)
    (hcd : SameLine '\n' shift next c d) :
    AgreeOnLine '\n' shift next (rule.BeginsFirst c) (rule.BeginsFirst d) :=
  .exists fun i => .isFirstAmong (fun p hp => (h.avoids p hp).takesFirst hcd) i

end CompiledRule

/-! ## Tokens on a line -/

theorem occursWithin_single_iff {x : Char} {body stop : Cursor} (hle : body ≤ stop) :
    (Node.one (.single x)).pattern.OccursWithin body stop ↔ x ∈ body.textTo stop := by
  constructor
  · rintro ⟨e, hbe, hes, hmatch⟩
    obtain ⟨end', hend⟩ := Option.isSome_iff_exists.mp hmatch
    obtain ⟨rest, hrest, -⟩ := Pattern.matchEnd_single_eq_some_iff.mp hend
    rw [← Cursor.textTo_append_textTo hbe hes.le]
    refine List.mem_append_right _ ?_
    rw [show e.textTo stop = x :: rest from hrest]
    exact List.mem_cons_self
  · intro hx
    obtain ⟨e, rest, hbe, hes, htext⟩ := Cursor.exists_of_mem_textTo hle hx
    exact ⟨e, hbe, hes, Option.isSome_iff_exists.mpr
      ⟨_, Pattern.matchEnd_single_eq_some_iff.mpr ⟨rest, htext, rfl⟩⟩⟩

namespace CompiledRule

variable {category : Category} {opening closing : Pattern} [closing.Leftmost]
  {begin close : Stretch} {x : Char}

/-- A region without a closing before the character that is illegal in it is rejected. -/
theorem take_eq_rejected
    (h : ∀ close, closing.TakesFirst begin.stop close → x ∈ begin.stop.textTo close.start) :
    (region category opening closing (some (Node.one (.single x)).pattern)).take begin =
      ⟨[⟨none, begin.start.offset, begin.stop.offset⟩], begin.stop⟩ := by
  cases hclose : closing.findNonEmpty begin.stop with
  | none => simp [take, hclose]
  | some close =>
      have hfirst := Pattern.findNonEmpty_eq_some_iff.mp hclose
      have hmem : isIllegalWithin (Node.one (.single x)).pattern begin.stop close = true :=
        (isIllegalWithin_iff hfirst.le_start).mpr
          ((occursWithin_single_iff hfirst.le_start).mpr (h close hfirst))
      simp [take, hclose, hmem]

theorem take_eq_token (hclose : closing.TakesFirst begin.stop close)
    (h : x ∉ begin.stop.textTo close.start) :
    (region category opening closing (some (Node.one (.single x)).pattern)).take begin =
      ⟨[⟨some category, begin.start.offset, close.stop.offset⟩], close.stop⟩ := by
  have hfind := Pattern.findNonEmpty_eq_some_iff.mpr hclose
  have hlegal : isIllegalWithin (Node.one (.single x)).pattern begin.stop close = false :=
    Bool.eq_false_iff.mpr fun hmem => h ((occursWithin_single_iff hclose.le_start).mp
      ((isIllegalWithin_iff hclose.le_start).mp hmem))
  simp [take, hfind, hlegal]

/-- A rule takes the same token of the line in either text. -/
theorem KeepsToLine.take_sameLine {rule : CompiledRule} [hleftmost : rule.Leftmost]
    (h : rule.KeepsToLine) {s t : Stretch} (hst : s.SameLine '\n' shift next t) :
    (rule.take s).spans = (rule.take t).spans.map (.shift shift) ∧
      SameLine '\n' shift next (rule.take s).next (rule.take t).next := by
  have hstart := hst.start.offset
  have hstop := hst.stop.offset
  cases h with
  | pattern _ =>
      refine ⟨?_, hst.stop⟩
      simp only [take, hstart, hstop]
      rfl
  | @region category opening closing _ closing_avoids =>
      obtain ⟨-, hclosing, -⟩ := leftmost_region_iff.mp hleftmost
      have hagree := closing_avoids.takesFirst hst.stop
      cases hclose : closing.findNonEmpty t.stop with
      | none =>
          have hnone := Pattern.findNonEmpty_eq_none_iff.mp hclose
          have hbehind : ∀ close, closing.TakesFirst s.stop close →
              '\n' ∈ s.stop.textTo close.start := by
            intro close hfirst
            have hle : next ≤ close.start := by
              refine Cursor.le_of_offset_le hst.stop.le_next hfirst.le_start ?_
              by_contra hlt
              obtain ⟨u, hu, -⟩ := hagree.exists_right close hfirst (Nat.not_le.mp hlt)
              exact hnone u hu.le_start hu.takes
            exact hst.stop.mem_textTo hle (hfirst.takes.rest_ne_nil hle)
          rw [take_eq_rejected fun close hfirst =>
              absurd hfirst.takes (hnone close hfirst.le_start),
            take_eq_rejected hbehind, hstart, hstop]
          exact ⟨rfl, hst.stop⟩
      | some close =>
          have hfirst := Pattern.findNonEmpty_eq_some_iff.mp hclose
          obtain ⟨close', hfirst', hclosing, -⟩ := hagree.exists_left close hfirst
          have hbody : '\n' ∉ t.stop.textTo close.start := fun hmem =>
            hst.stop.not_mem (Cursor.textTo_subset hfirst.le_start hmem)
          have hbody' := hst.stop.textTo_eq hclosing.start hfirst.le_start ▸ hbody
          rw [take_eq_token hfirst hbody, take_eq_token hfirst' hbody',
            hstart, hclosing.stop.offset]
          exact ⟨rfl, hclosing.stop⟩

end CompiledRule

/-! ## Functions of a place that go line by line -/

/-- What is found from a place on is what is found on its line and from the next line on. -/
structure ByLines (F : Cursor → List Span) : Prop where
  nil : ∀ {c}, c.rest = [] → F c = []
  line : ∀ {shift next c d}, SameLine '\n' shift next c d →
    F c = (F d).map (.shift shift) ++ F next

namespace ByLines

variable {F : Cursor → List Span}

theorem map_shift_zero (spans : List Span) : spans.map (.shift 0) = spans :=
  List.map_id spans

/-- The character before a place does not matter if it is on another line, and the offset only
shifts what is found. -/
theorem eq_map_shift (hF : ByLines F)
    (hbefore : c.before.filter (· ≠ '\n') = d.before.filter (· ≠ '\n'))
    (hoffset : c.offset = d.offset + shift) (hrest : c.rest = d.rest) :
    F c = (F d).map (.shift shift) := by
  obtain ⟨text, htext⟩ : ∃ text, d.rest = text := ⟨_, rfl⟩
  rw [htext] at hrest
  induction text using lines_induction '\n' generalizing c d with
  | last line hnot =>
      have hline : SameLine '\n' shift c.atEnd c d :=
        Cursor.sameLine_of_rest_eq hbefore hoffset (htext ▸ hnot) (hrest.trans htext.symm)
      rw [hF.line hline, hF.nil (c := c.atEnd) rfl, List.append_nil]
  | cons line more hnot ih =>
      have hd : SameLine '\n' 0 _ d ⟨d.passed, line, d.offset⟩ :=
        Cursor.sameLine_of_append rfl rfl hnot htext
      have hc : SameLine '\n' shift _ c ⟨d.passed, line, d.offset⟩ :=
        Cursor.sameLine_of_append hbefore hoffset hnot hrest
      rw [hF.line hc, hF.line hd, map_shift_zero, List.map_append]
      refine congrArg _ (ih ?_ ?_ rfl rfl)
      · rw [Cursor.before_pass, Cursor.before_pass]
        simp
      · simp only [Cursor.pass, hoffset]
        omega

theorem congr (hF : ByLines F) (hbefore : c.before.filter (· ≠ '\n') = d.before.filter (· ≠ '\n'))
    (hoffset : c.offset = d.offset) (hrest : c.rest = d.rest) : F c = F d :=
  (hF.eq_map_shift hbefore (show c.offset = d.offset + 0 from hoffset) hrest).trans
    (map_shift_zero _)

/-- From the beginning of a text on: what is found on the first line, and then in the other lines as
a text of their own. -/
theorem atStart_append_of_not_mem (hF : ByLines F) {line : List Char} (hnot : '\n' ∉ line)
    (more : List Char) (offset : Nat) :
    F (.atStart (line ++ '\n' :: more) offset) =
      F (.atStart line offset) ++ F (.atStart more (offset + byteSize line + 1)) := by
  have hline : SameLine '\n' 0 _ (.atStart (line ++ '\n' :: more) offset) (.atStart line offset) :=
    Cursor.sameLine_of_append rfl rfl hnot rfl
  rw [hF.line hline, map_shift_zero]
  refine congrArg _ (hF.congr ?_ ?_ rfl)
  · rw [Cursor.before_pass]
    simp [Cursor.before, Cursor.atStart]
  · simp only [Cursor.pass, Cursor.atStart, byteSize_append]
    rfl

/-- The part of a text behind an end of line may be taken as a text of its own. -/
theorem atStart_append (hF : ByLines F) (text more : List Char) (offset : Nat) :
    F (.atStart (text ++ '\n' :: more) offset) =
      F (.atStart text offset) ++ F (.atStart more (offset + byteSize text + 1)) := by
  induction text using lines_induction '\n' generalizing offset with
  | last line hnot => exact hF.atStart_append_of_not_mem hnot more offset
  | cons line rest hnot ih =>
      have hsize : offset + byteSize (line ++ '\n' :: rest) + 1 =
          offset + byteSize line + 1 + byteSize rest + 1 := by
        rw [byteSize_append, byteSize_cons, show ('\n').utf8Size = 1 from rfl]
        omega
      rw [List.append_assoc, List.cons_append, hF.atStart_append_of_not_mem hnot,
        hF.atStart_append_of_not_mem hnot, ih, List.append_assoc, hsize]

/-- What is found in a text is what is found in its lines. -/
theorem eq_flatMap_linesFrom (hF : ByLines F) (text : List Char) (offset : Nat) :
    F (.atStart text offset) = (linesFrom offset (text.splitOn '\n')).flatMap F := by
  induction text using lines_induction '\n' generalizing offset with
  | last line hnot =>
      rw [List.splitOn_eq_singleton hnot]
      exact (List.append_nil _).symm
  | cons line more hnot ih =>
      rw [List.splitOn_append_cons_self_of_not_mem hnot, hF.atStart_append_of_not_mem hnot, ih]
      rfl

end ByLines

namespace Highlighter

variable {h : Highlighter}

/-- Neither a rule nor a word reaches over the end of a line. -/
structure KeepsToLines (h : Highlighter) : Prop where
  rules : ∀ rule ∈ h.rules, rule.KeepsToLine
  words : h.wordPattern.Avoids '\n'

theorem KeepsToLines.agreeOnLine (hkeeps : h.KeepsToLines) (hcd : SameLine '\n' shift next c d)
    (i : Nat) :
    AgreeOnLine '\n' shift next (IsFirstAmong h.rules (·.BeginsFirst c) i)
      (IsFirstAmong h.rules (·.BeginsFirst d) i) :=
  .isFirstAmong (fun rule hrule => (hkeeps.rules rule hrule).beginsFirst hcd) i

variable [h.Leftmost]

/-! ## Words -/

theorem byLines_wordsFrom (hword : h.wordPattern.Avoids '\n') : ByLines h.wordsFrom := by
  refine ⟨fun {c} hc => ?_, ?_⟩
  · refine wordsFrom_of_eq_none (Pattern.findNonEmpty_eq_none_iff.mpr fun t hct ht => ?_)
    exact ht.rest_ne_nil hct hc
  · intro shift next c d hcd
    induction hn : d.rest.length using Nat.strongRecOn generalizing shift next c d with
    | ind n ih =>
        have hagree := hword.takesFirst hcd
        cases hd : h.wordPattern.findNonEmpty d with
        | some t =>
            have ht := Pattern.findNonEmpty_eq_some_iff.mp hd
            obtain ⟨s, hs, hst, -⟩ := hagree.exists_left t ht
            have hc := Pattern.findNonEmpty_eq_some_iff.mpr hs
            have hlength := Cursor.rest_length_lt (ht.le_start.trans_lt ht.takes.start_lt_stop)
            have htext : s.text = t.text := hst.start.textTo_eq hst.stop ht.takes.start_lt_stop.le
            rw [wordsFrom_of_eq_some hc, wordsFrom_of_eq_some hd, htext, hst.start.offset,
              hst.stop.offset, ih _ (hn ▸ hlength) hst.stop rfl, List.map_append,
              ← filter_isToken_shift, List.append_assoc]
            rfl
        | none =>
            have hnone := Pattern.findNonEmpty_eq_none_iff.mp hd
            rw [wordsFrom_of_eq_none hd, List.map_nil, List.nil_append]
            cases hc : h.wordPattern.findNonEmpty c with
            | none =>
                rw [wordsFrom_of_eq_none hc, wordsFrom_of_eq_none
                  (Pattern.findNonEmpty_eq_none_of_le hc hcd.le_next)]
            | some s =>
                have hs := Pattern.findNonEmpty_eq_some_iff.mp hc
                have hle : next ≤ s.start := by
                  refine Cursor.le_of_offset_le hcd.le_next hs.le_start ?_
                  by_contra hlt
                  obtain ⟨t, ht, -⟩ := hagree.exists_right s hs (Nat.not_le.mp hlt)
                  exact hnone t ht.le_start ht.takes
                rw [wordsFrom_of_eq_some hc, wordsFrom_of_eq_some
                  (Pattern.findNonEmpty_eq_of_le hc hcd.le_next hle)]

theorem wordsFrom_alone_of_sameLine (hword : h.wordPattern.Avoids '\n')
    (hcd : SameLine '\n' shift next c d) (hce : SameLine '\n' shift next c' e) (hde : d ≤ e) :
    h.wordsFrom (c.alone c') = (h.wordsFrom (d.alone e)).map (.shift shift) := by
  have hbyLines := byLines_wordsFrom hword
  exact hbyLines.eq_map_shift rfl hcd.offset (hcd.textTo_eq hce hde)

/-- The words of a gap that reaches behind the line: those of the line, and those behind it. -/
theorem wordsFrom_alone_of_next_le (hword : h.wordPattern.Avoids '\n')
    (hcd : SameLine '\n' shift next c d) (hle : next ≤ e) :
    h.wordsFrom (c.alone e) =
      (h.wordsFrom (.atStart d.rest d.offset)).map (.shift shift) ++
        h.wordsFrom (next.alone e) := by
  have hbyLines := byLines_wordsFrom hword
  obtain ⟨ending, hending, htext⟩ := hcd.textTo_next
  have hgap : c.textTo e = d.rest ++ (ending ++ next.textTo e) := by
    rw [← Cursor.textTo_append_textTo hcd.le_next hle, htext, List.append_assoc]
  rcases hending with rfl | ⟨rfl, hnil⟩
  · have hline : SameLine '\n' shift _ (c.alone e) (.atStart d.rest d.offset) :=
      Cursor.sameLine_of_append rfl hcd.offset hcd.not_mem hgap
    rw [hbyLines.line hline]
    refine congrArg _ (hbyLines.congr ?_ ?_ rfl)
    · rw [Cursor.before_pass]
      simp [Cursor.before, Cursor.alone, Cursor.atStart]
    · show c.offset + byteSize (d.rest ++ ['\n']) = next.offset
      rw [Cursor.offset_eq_add_byteSize_textTo hcd.le_next, htext]
  · have hnext : next.textTo e = [] :=
      (Cursor.textTo_eq_nil_iff hle).mpr (Cursor.eq_of_le_of_rest_nil hle hnil)
    rw [hnext, List.nil_append, List.append_nil] at hgap
    rw [hbyLines.eq_map_shift (c := c.alone e) (d := .atStart d.rest d.offset) rfl hcd.offset hgap,
      hbyLines.nil (c := next.alone e) hnext, List.append_nil]

/-! ## Tokens -/

namespace KeepsToLines

theorem earliestRule_eq (hkeeps : h.KeepsToLines) (hcd : SameLine '\n' shift next c d)
    {candidate : Candidate} (hd : h.earliestRule d = some candidate) :
    ∃ s, h.earliestRule c = some ⟨candidate.index, candidate.rule, s⟩ ∧
      s.SameLine '\n' shift next candidate.begin := by
  obtain ⟨hrule, hfirst⟩ := earliestRule_eq_some_iff.mp hd
  obtain ⟨s, hs, hst, -⟩ := (hkeeps.agreeOnLine hcd candidate.index).exists_left _ hfirst
  exact ⟨s, earliestRule_eq_some_iff.mpr ⟨hrule, hs⟩, hst⟩

theorem next_le_begin (hkeeps : h.KeepsToLines) (hcd : SameLine '\n' shift next c d)
    {candidate : Candidate} (hd : h.earliestRule d = none)
    (hc : h.earliestRule c = some candidate) : next ≤ candidate.begin.start := by
  obtain ⟨hrule, hfirst⟩ := earliestRule_eq_some_iff.mp hc
  obtain ⟨hle, -⟩ := (hfirst.has hrule).exists_takes
  refine Cursor.le_of_offset_le hcd.le_next hle ?_
  by_contra hlt
  obtain ⟨t, ht, -⟩ :=
    (hkeeps.agreeOnLine hcd candidate.index).exists_right _ hfirst (Nat.not_le.mp hlt)
  have hsome : h.earliestRule d = some ⟨candidate.index, candidate.rule, t⟩ :=
    earliestRule_eq_some_iff.mpr ⟨hrule, ht⟩
  rw [hd] at hsome
  cases hsome

/-- The tokens of a text are found line by line. -/
theorem byLines_tokensFrom (hkeeps : h.KeepsToLines) : ByLines h.tokensFrom := by
  refine ⟨tokensFrom_of_rest_eq_nil, ?_⟩
  intro shift next c d hcd
  induction hn : d.rest.length using Nat.strongRecOn generalizing shift next c d with
  | ind n ih =>
      cases hd : h.earliestRule d with
      | some candidate =>
          -- Both scans take the same token, and go on behind it.
          obtain ⟨s, hc, hst⟩ := hkeeps.earliestRule_eq hcd hd
          obtain ⟨hmem, -⟩ := beginsFirst_of_earliestRule hd
          obtain ⟨hle, hlt⟩ := isAhead_of_earliestRule hd
          have := Leftmost.of_mem _ hmem
          obtain ⟨hspans, hnext⟩ := (hkeeps.rules _ hmem).take_sameLine hst
          have hlength : (candidate.rule.take candidate.begin).next.rest.length < n :=
            hn ▸ Cursor.rest_length_lt
              ((hle.trans_lt hlt).trans_le (candidate.rule.covers_take hlt).2)
          rw [tokensFrom_of_earliestRule hc, tokensFrom_of_earliestRule hd, hspans,
            ih _ hlength hnext rfl, wordsFrom_alone_of_sameLine hkeeps.words hcd hst.start hle,
            filter_isToken_shift, List.map_append, List.map_append, List.append_assoc,
            List.append_assoc]
      | none =>
          -- The scan of the line is at its end, and the other one has reached the next line.
          rw [tokensFrom_of_earliestRule_eq_none hd]
          cases hc : h.earliestRule c with
          | none =>
              have hgap := wordsFrom_alone_of_next_le hkeeps.words hcd
                (Cursor.le_atEnd_of_le hcd.le_next)
              have hend := Cursor.atEnd_eq_of_le hcd.le_next
              rw [Cursor.alone, Cursor.textTo_atEnd, ← hend, Cursor.alone,
                Cursor.textTo_atEnd] at hgap
              rw [tokensFrom_of_earliestRule_eq_none hc, hgap, tokensFrom_of_earliestRule_eq_none
                (earliestRule_eq_none_of_le hc hcd.le_next)]
          | some candidate =>
              have hle := hkeeps.next_le_begin hcd hd hc
              rw [tokensFrom_of_earliestRule hc,
                tokensFrom_of_earliestRule (earliestRule_eq_of_le hc hcd.le_next hle),
                wordsFrom_alone_of_next_le hkeeps.words hcd hle, List.append_assoc]

/-- A text is highlighted like its part up to an end of line, and then like the rest of it as a text
of its own; the plain text on both sides of the seam is made one. -/
theorem highlight_append (hkeeps : h.KeepsToLines) (a b : String) :
    ∃ front start, h.highlight (a ++ "\n") = front ++ [⟨none, start, (a ++ "\n").utf8ByteSize⟩] ∧
      h.highlight (a ++ "\n" ++ b) =
        front ++ spansBehind start (a ++ "\n").utf8ByteSize (h.highlight b) := by
  have hbyLines := hkeeps.byLines_tokensFrom
  have hsize : 0 + byteSize a.toList + 1 = (a ++ "\n").utf8ByteSize := by
    rw [String.utf8ByteSize_append, byteSize_toList, Nat.zero_add]
    rfl
  have hfront : h.tokensFrom (.atStart (a ++ "\n").toList 0) =
      h.tokensFrom (.atStart a.toList 0) := by
    rw [String.toList_append]
    refine (hbyLines.atStart_append a.toList [] 0).trans ?_
    rw [hbyLines.nil (c := .atStart [] _) rfl, List.append_nil]
  have htokens : h.tokensFrom (.atStart (a ++ "\n" ++ b).toList 0) =
      h.tokensFrom (.atStart a.toList 0) ++
        (h.tokensFrom (.atStart b.toList 0)).map (.shift (a ++ "\n").utf8ByteSize) := by
    rw [String.toList_append, String.toList_append, List.append_assoc]
    refine (hbyLines.atStart_append a.toList b.toList 0).trans (congrArg _ ?_)
    rw [hsize]
    exact hbyLines.eq_map_shift rfl (Nat.zero_add _).symm rfl
  have hstop : ∀ token ∈ h.tokensFrom (.atStart a.toList 0), token.stop ≤ 0 + byteSize a.toList :=
    fun token htoken => stop_le_of_mem_tokensFrom htoken
  obtain ⟨front, start, hstart, hfill⟩ := exists_fill_append hstop 0 (Nat.zero_le _)
  have hlt : start < (a ++ "\n").utf8ByteSize := hsize ▸ Nat.lt_succ_of_le hstart
  refine ⟨front, start, ?_, ?_⟩
  · rw [highlight_eq_fill, hfront, ← List.append_nil (h.tokensFrom _), hfill, fill,
      plainBetween_of_lt hlt]
  · rw [highlight_eq_fill, htokens, hfill, String.utf8ByteSize_append, Nat.add_comm,
      fill_map_shift hlt fun token htoken => isSome_category_of_mem_tokensFrom htoken,
      ← highlight_eq_fill]

end KeepsToLines

end Highlighter

end CodeTint
