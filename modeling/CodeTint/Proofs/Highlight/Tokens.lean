import CodeTint.Proofs.Highlight.Lookahead

/-!
# Tokens of a text

The spans that have a category tell the others: what lies between them is plain
(`highlight_eq_fill`). They come from the scan step by step, the words of a gap first and then the
token behind it, if there is one (`tokensFrom_of_earliestRule`).
-/

namespace CodeTint

/-! ## Filling up with plain text -/

/-- The plain text between two offsets, if they differ. -/
def plainBetween (start stop : Nat) : List Span :=
  if start < stop then [⟨none, start, stop⟩] else []

/-- The spans from `start` to `stop` that have the given tokens, and plain text elsewhere. -/
def fill (start stop : Nat) : List Span → List Span
  | [] => plainBetween start stop
  | token :: tokens => plainBetween start token.start ++ token :: fill token.stop stop tokens

@[simp] theorem plainBetween_self (offset : Nat) : plainBetween offset offset = [] :=
  if_neg (Nat.lt_irrefl offset)

theorem plainBetween_of_lt {start stop : Nat} (h : start < stop) :
    plainBetween start stop = [⟨none, start, stop⟩] :=
  if_pos h

/-- Spans that cover a stretch, none of them empty and no two plain ones neighbours, are known by
those that have a category. -/
theorem Covers.eq_fill {a b : Cursor} {spans : List Span} (h : Covers a spans b)
    (hlt : ∀ span ∈ spans, span.start < span.stop)
    (happart : spans.IsChain fun span next => ¬(span.category = none ∧ next.category = none)) :
    spans = fill a.offset b.offset (spans.filter (·.category.isSome)) := by
  induction h with
  | nil a => exact (plainBetween_self a.offset).symm
  | @cons a m b spans category hle hrest ih =>
      obtain ⟨hfirst, hlt⟩ := List.forall_mem_cons.mp hlt
      have hspans := ih hlt happart.tail
      cases category with
      | some category =>
          rw [List.filter_cons_of_pos rfl, fill, ← hspans, plainBetween_self, List.nil_append]
      | none =>
          rw [List.filter_cons_of_neg (by simp)]
          cases hrest with
          | nil => exact (plainBetween_of_lt hfirst).symm
          | @cons _ m' _ spans next hle' hrest' =>
              obtain ⟨next, rfl⟩ : ∃ category, next = some category := by
                cases next with
                | some next => exact ⟨next, rfl⟩
                | none => exact absurd ⟨rfl, rfl⟩ happart.rel
              rw [List.filter_cons_of_pos rfl, fill, plainBetween_self, List.nil_append] at hspans
              rw [List.filter_cons_of_pos rfl, fill, ← hspans, plainBetween_of_lt hfirst]
              rfl

theorem Covers.exists_mem {a b : Cursor} {spans : List Span} (h : Covers a spans b) {offset : Nat}
    (ha : a.offset ≤ offset) (hb : offset < b.offset) :
    ∃ span ∈ spans, span.start ≤ offset ∧ offset < span.stop := by
  induction h with
  | nil a => omega
  | @cons a m b spans category hle hrest ih =>
      by_cases hm : offset < m.offset
      · exact ⟨_, List.mem_cons_self, ha, hm⟩
      · obtain ⟨span, hspan, hbounds⟩ := ih (Nat.not_lt.mp hm) hb
        exact ⟨span, List.mem_cons_of_mem _ hspan, hbounds⟩

/-- The spans of a stretch begin with those of the first part of it, whatever the tokens behind that
part are. -/
theorem exists_fill_append {bound : Nat} {tokens : List Span}
    (h : ∀ token ∈ tokens, token.stop ≤ bound) (start : Nat) (hstart : start ≤ bound) :
    ∃ front last, last ≤ bound ∧
      ∀ stop others, fill start stop (tokens ++ others) = front ++ fill last stop others := by
  induction tokens generalizing start with
  | nil => exact ⟨[], start, hstart, fun _ _ => rfl⟩
  | cons token tokens ih =>
      obtain ⟨htoken, h⟩ := List.forall_mem_cons.mp h
      obtain ⟨front, last, hlast, hfill⟩ := ih h token.stop htoken
      refine ⟨plainBetween start token.start ++ token :: front, last, hlast, fun stop others => ?_⟩
      rw [List.cons_append, fill, hfill, List.append_assoc, List.cons_append]

/-- The span as it is when the text follows another one of `size` bytes. -/
def Span.shift (size : Nat) (span : Span) : Span :=
  ⟨span.category, span.start + size, span.stop + size⟩

theorem plainBetween_shift (size start stop : Nat) :
    (plainBetween start stop).map (.shift size) = plainBetween (start + size) (stop + size) := by
  rw [plainBetween, plainBetween, apply_ite (List.map _), if_congr Nat.add_lt_add_iff_right rfl rfl]
  rfl

theorem fill_shift (size : Nat) (tokens : List Span) (start stop : Nat) :
    (fill start stop tokens).map (.shift size) =
      fill (start + size) (stop + size) (tokens.map (.shift size)) := by
  induction tokens generalizing start with
  | nil => exact plainBetween_shift size start stop
  | cons token tokens ih =>
      rw [fill, List.map_append, List.map_cons, ih, plainBetween_shift]
      rfl

/-- The spans of a text that follows `size` bytes of another one, the last of which are plain from
`start` on. A plain span in front is made one with that plain text. -/
def spansBehind (start size : Nat) : List Span → List Span
  | ⟨none, _, stop⟩ :: spans => ⟨none, start, stop + size⟩ :: spans.map (.shift size)
  | spans => ⟨none, start, size⟩ :: spans.map (.shift size)

theorem fill_map_shift {start size : Nat} (hstart : start < size) {tokens : List Span}
    (htokens : ∀ token ∈ tokens, token.category.isSome) (stop : Nat) :
    fill start (stop + size) (tokens.map (.shift size)) =
      spansBehind start size (fill 0 stop tokens) := by
  cases tokens with
  | nil =>
      rw [List.map_nil, fill, fill, plainBetween_of_lt (Nat.lt_add_left stop hstart)]
      cases stop with
      | zero => rw [Nat.zero_add, plainBetween_self]; rfl
      | succ stop => rw [plainBetween_of_lt (Nat.succ_pos stop)]; rfl
  | cons token tokens =>
      obtain ⟨category, first, last⟩ := token
      obtain ⟨category, rfl⟩ := Option.isSome_iff_exists.mp (htokens _ List.mem_cons_self)
      rw [List.map_cons, fill, fill, Span.shift, plainBetween_of_lt (Nat.lt_add_left first hstart),
        ← fill_shift]
      cases first with
      | zero => simp [spansBehind, Span.shift]
      | succ first => rw [plainBetween_of_lt (Nat.succ_pos first)]; rfl

theorem filter_isToken_shift (size : Nat) (spans : List Span) :
    (spans.map (.shift size)).filter Span.isToken =
      (spans.filter Span.isToken).map (.shift size) := by
  rw [List.filter_map]
  refine congrArg (List.map _) (List.filter_congr fun span _ => ?_)
  simp [Span.isToken, Span.isEmpty, Span.shift]

namespace Highlighter

variable {h : Highlighter} {c d : Cursor}

/-! ## Tokens of gaps -/

theorem classifyFrom_eq_of_lt : ∀ (fuel fuel' : Nat) {c : Cursor}, c.rest.length < fuel →
    c.rest.length < fuel' → h.classifyFrom fuel c = h.classifyFrom fuel' c := by
  intro fuel
  induction fuel with
  | zero => exact fun _ _ hc => absurd hc (Nat.not_lt_zero _)
  | succ fuel ih =>
      intro fuel' c hc hc'
      cases fuel' with
      | zero => exact absurd hc' (Nat.not_lt_zero _)
      | succ fuel' =>
          rw [classifyFrom, classifyFrom]
          cases hword : h.wordPattern.findNonEmpty c with
          | none => rfl
          | some word =>
              obtain ⟨hle, hlt⟩ := Pattern.findNonEmpty_range hword
              have hlength := Cursor.rest_length_lt (hle.trans_lt hlt)
              have hrest := ih fuel' (c := word.stop) (by omega) (by omega)
              simp only [hrest]

/-- The words from a place to the end of its text. -/
def wordsFrom (h : Highlighter) (c : Cursor) : List Span :=
  (h.classifyGap c).filter Span.isToken

theorem isToken_none (start stop : Nat) : Span.isToken ⟨none, start, stop⟩ = false :=
  rfl

theorem wordsFrom_of_eq_none (hword : h.wordPattern.findNonEmpty c = none) :
    h.wordsFrom c = [] := by
  rw [wordsFrom, classifyGap, classifyFrom, hword]
  rfl

theorem wordsFrom_of_eq_some {word : Stretch} (hword : h.wordPattern.findNonEmpty c = some word) :
    h.wordsFrom c =
      [⟨h.classifyWord (String.ofList word.text), word.start.offset, word.stop.offset⟩].filter
        Span.isToken ++ h.wordsFrom word.stop := by
  obtain ⟨hle, hlt⟩ := Pattern.findNonEmpty_range hword
  have hlength := Cursor.rest_length_lt (hle.trans_lt hlt)
  have hrest := classifyFrom_eq_of_lt (h := h) _ _ hlength (Nat.lt_succ_self _)
  rw [wordsFrom, classifyGap, classifyFrom, hword]
  simp only [List.filter_cons_of_neg (Bool.eq_false_iff.mp (isToken_none _ _))]
  rw [hrest, ← List.singleton_append, List.filter_append]
  rfl

/-! ## Tokens of a scan -/

theorem scanAfreshFrom_eq_of_lt : ∀ (fuel fuel' : Nat) {c : Cursor}, c.rest.length < fuel →
    c.rest.length < fuel' → h.scanAfreshFrom fuel c = h.scanAfreshFrom fuel' c := by
  intro fuel
  induction fuel with
  | zero => exact fun _ _ hc => absurd hc (Nat.not_lt_zero _)
  | succ fuel ih =>
      intro fuel' c hc hc'
      cases fuel' with
      | zero => exact absurd hc' (Nat.not_lt_zero _)
      | succ fuel' =>
          rw [scanAfreshFrom, scanAfreshFrom]
          by_cases hrest : c.rest = []
          · rw [hrest]
            rfl
          · have hlength := Cursor.rest_length_lt (h.lt_scanPart_next hrest)
            have hnext := ih fuel' (c := (h.scanPart c (h.earliestRule c)).next) (by omega)
              (by omega)
            simp only [hnext]

/-- The spans of the scan from a place to the end of its text. -/
def scan (h : Highlighter) (c : Cursor) : List Span :=
  h.scanAfreshFrom (c.rest.length + 1) c

theorem scan_of_rest_eq_nil (hc : c.rest = []) : h.scan c = [] := by
  rw [scan, scanAfreshFrom, hc]
  rfl

theorem scan_of_rest_ne_nil (hc : c.rest ≠ []) :
    h.scan c = (h.scanPart c (h.earliestRule c)).spans ++
      h.scan (h.scanPart c (h.earliestRule c)).next := by
  have hlength := Cursor.rest_length_lt (h.lt_scanPart_next hc)
  have hrest := scanAfreshFrom_eq_of_lt (h := h) _ _ hlength (Nat.lt_succ_self _)
  rw [scan, scanAfreshFrom, if_neg (by simpa using hc)]
  simp only [hrest]
  rfl

/-- The tokens and the words that a scan finds from a place to the end of its text. -/
def tokensFrom (h : Highlighter) (c : Cursor) : List Span :=
  (h.scan c).filter Span.isToken

theorem tokensFrom_of_rest_eq_nil (hc : c.rest = []) : h.tokensFrom c = [] := by
  rw [tokensFrom, scan_of_rest_eq_nil hc]
  rfl

theorem tokensFrom_of_earliestRule_eq_none (hbest : h.earliestRule c = none) :
    h.tokensFrom c = h.wordsFrom (.atStart c.rest c.offset) := by
  by_cases hc : c.rest = []
  · have hnone : h.wordPattern.findNonEmpty (.atStart c.rest c.offset) = none := by
      refine Option.eq_none_iff_forall_ne_some.mpr fun word hword => ?_
      obtain ⟨hle, hlt⟩ := Pattern.findNonEmpty_range hword
      exact Cursor.rest_ne_nil_of_lt (hle.trans_lt hlt) hc
    rw [tokensFrom_of_rest_eq_nil hc, wordsFrom_of_eq_none hnone]
  · rw [tokensFrom, scan_of_rest_ne_nil hc, hbest, List.filter_append]
    simp only [scanPart]
    rw [scan_of_rest_eq_nil rfl, List.filter_nil, List.append_nil]
    rfl

/-- The words before the rule that begins earliest, its token, and what the scan finds behind it. -/
theorem tokensFrom_of_earliestRule {candidate : Candidate}
    (hbest : h.earliestRule c = some candidate) :
    h.tokensFrom c = h.wordsFrom (c.alone candidate.begin.start) ++
      ((candidate.rule.take candidate.begin).spans.filter Span.isToken ++
        h.tokensFrom (candidate.rule.take candidate.begin).next) := by
  have hc := (isAhead_of_earliestRule hbest).rest_ne_nil
  rw [tokensFrom, scan_of_rest_ne_nil hc, hbest]
  simp only [scanPart, List.filter_append, List.append_assoc]
  rfl

theorem covers_scan (h : Highlighter) [h.Leftmost] (c : Cursor) :
    Covers c (h.scan c) c.atEnd := by
  rw [scan, ← h.scanFrom_eq_scanAfreshFrom _ (.unknown h c)]
  exact h.covers_scanFrom _ (.unknown h c) (Nat.lt_succ_self _)

theorem stop_le_of_mem_tokensFrom [h.Leftmost] {token : Span} (htoken : token ∈ h.tokensFrom c) :
    token.stop ≤ c.offset + byteSize c.rest := by
  obtain ⟨hmem, -⟩ := List.mem_filter.mp htoken
  obtain ⟨d, e, -, -, he, hspan⟩ := (h.covers_scan c).exists_places hmem
  rw [hspan]
  exact Cursor.offset_le he

theorem isSome_category_of_mem_tokensFrom {token : Span} (htoken : token ∈ h.tokensFrom c) :
    token.category.isSome := by
  obtain ⟨-, htoken⟩ := List.mem_filter.mp htoken
  exact (Bool.and_eq_true_iff.mp htoken).1

/-! ## Tokens of a text -/

theorem filter_highlight (h : Highlighter) [h.Leftmost] (text : String) :
    (h.highlight text).filter (·.category.isSome) = h.tokensFrom (.atStart text.toList 0) := by
  rw [highlight_eq_highlightAfresh]
  exact filter_joinSpans _

/-- What a text is highlighted with, by its tokens and words. -/
theorem highlight_eq_fill (h : Highlighter) [h.Leftmost] (text : String) :
    h.highlight text = fill 0 text.utf8ByteSize (h.tokensFrom (.atStart text.toList 0)) := by
  have hfill := (h.covers_highlight text).eq_fill
    (fun span hspan => start_lt_stop_of_mem_highlight hspan)
    ((h.isChain_highlight text).imp fun span next hsome hnone => by
      simp [hnone.1, hnone.2] at hsome)
  rw [filter_highlight, Cursor.offset_atEnd_atStart] at hfill
  exact hfill

end Highlighter

end CodeTint
